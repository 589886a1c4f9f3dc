import Machinen.Terminal.Continuation
import Machinen.Terminal.Confined

/-! The checkpoint of any builder that the worker can have, after resizes and on either screen. -/
namespace Machinen.Vt

open Builder

theorem init_screen {rows columns : Nat} (height : 0 < rows ∧ rows ≤ maxDimension)
    (width : 0 < columns ∧ columns ≤ maxDimension) : init rows columns = some (screen rows columns) := by
  have size : validSize rows columns = true := by
    unfold validSize
    simp only [Bool.not_eq_true', Bool.or_eq_false_iff, beq_eq_false_iff_ne, decide_eq_false_iff_not]
    omega
  exact if_pos size

theorem paintRows_screen (b : Builder) (alternate : Bool) (rows : List Nat) (painted : Bytes × Rendition) :
    paintRows { b with inAlternateScreen := alternate } rows painted = b.paintRows rows painted := by
  induction rows generalizing painted with
  | nil => rfl
  | cons index rest ih => exact ih _

theorem checkpoint_screen (b : Builder) (alternate : Bool) :
    checkpoint { b with inAlternateScreen := alternate } = b.checkpoint := by
  unfold checkpoint
  rw [paintRows_screen]

theorem Builder.Ordered.sound {b : Builder} (ordered : b.Ordered) :
    Sound { b with inAlternateScreen := false } :=
  ⟨ordered.rows, ordered.columns, ordered.length, ordered.formed, ordered.inside, ordered.narrow, rfl⟩

theorem replay_shows {b : Builder} (ordered : b.Ordered) (active : b.rendition.Fits)
    (fits : ∀ cell ∈ b.cells, cell.rendition.Fits) :
    ∃ c, (screen b.rows b.columns).feed b.checkpoint = some c ∧ c.rows = b.rows ∧ c.columns = b.columns ∧
      List.Forall₂ Cell.Alike b.cells c.cells ∧ c.rendition = b.rendition ∧ c.state = .ground := by
  obtain ⟨c, replayed, shown, -⟩ := checkpoint_replays ordered.sound
    (init_screen ordered.rows ordered.columns)
  rw [checkpoint_screen] at replayed
  refine ⟨c, replayed, shown.rows, shown.columns, ?_, ?_, shown.state⟩
  · rw [shown.cells]
    exact (cells_alike ordered.sound).mpr fits
  · exact shown.rendition.trans ((reread_eq _).mpr active)

/-- Where the renditions fit in the parameters of the parser, a fresh builder that is fed the
checkpoint shows the same cells, and goes on in the same rendition. -/
theorem checkpoint_reconstructs {rows columns : Nat} {first b : Builder} {events : List Event}
    (started : init rows columns = some first) (run : first.exec events = some b)
    (active : b.rendition.Fits) (fits : ∀ cell ∈ b.cells, cell.rendition.Fits) :
    ∃ fresh c, init b.rows b.columns = some fresh ∧ fresh.feed b.checkpoint = some c ∧
      c.rows = b.rows ∧ c.columns = b.columns ∧ List.Forall₂ Cell.Alike b.cells c.cells ∧
      c.rendition = b.rendition ∧ c.state = .ground := by
  have reached : b.Ordered := Run.exec_invariant handle_ordered events (init_ordered started) run
  obtain ⟨c, replayed, shown⟩ := replay_shows reached active fits
  exact ⟨_, c, init_screen reached.rows reached.columns, replayed, shown⟩

/-- A red `a`, then a `b` on blue on the other screen, which gets a row more and a column less. -/
def otherScreen : List Event :=
  typed [0x1b, 0x5b, 0x33, 0x31, 0x6d, 0x61, 0x1b, 0x5b, 0x3f, 0x34, 0x37, 0x68, 0x1b, 0x5b, 0x34, 0x34,
    0x6d, 0x62] ++ [.resize 3 2 true]

theorem checkpoint_reconstructs_otherScreen : ∃ b, (screen 2 3).exec otherScreen = some b ∧
    ∃ fresh c, init b.rows b.columns = some fresh ∧ fresh.feed b.checkpoint = some c ∧
      c.rows = b.rows ∧ c.columns = b.columns ∧ List.Forall₂ Cell.Alike b.cells c.cells ∧
      c.rendition = b.rendition ∧ c.state = .ground := by
  have ends : ((screen 2 3).exec otherScreen).any (fun b => b.rendition.Fits ∧ ∀ cell ∈ b.cells,
    cell.rendition.Fits) := by
    decide +kernel
  obtain ⟨b, run, fits⟩ := (Option.any_eq_true ..).mp ends
  have both := of_decide_eq_true fits
  exact ⟨b, run, checkpoint_reconstructs (show init 2 3 = some (screen 2 3) from rfl) run both.1 both.2⟩

/-! A rendition by itself -/

/-- In whatever rendition a builder is, the bytes of another one leave that other one active
just when their parameters, the leading 0 among them, are sixteen at the most. -/
theorem rendition_returns (rendition : Rendition) {b : Builder} (ground : b.state = .ground) :
    ∃ c, b.feed (renditionBytes rendition) = some c ∧
      (c.rendition = rendition ↔ (0 :: renditionParameters rendition).length ≤ maxParams) := by
  obtain ⟨reread, params, separators, count, exact_, fed⟩ := feed_ground rendition
  exact ⟨_, fed ground, exact_⟩

def crowded : Rendition where
  attributes := fun _ => true
  foreground := .rgb 1 2 3
  underlineColor := .rgb 4 5 6

theorem rendition_returns_crowded : ∃ c, (screen 1 1).feed (renditionBytes crowded) = some c ∧
    (c.rendition = crowded ↔ (0 :: renditionParameters crowded).length ≤ maxParams) :=
  rendition_returns crowded rfl

theorem crowded_loses_color : ∃ c, (screen 1 1).feed (renditionBytes crowded) = some c ∧
    c.rendition.underlineColor = .default ∧ c.rendition ≠ crowded := by
  have fed : ((screen 1 1).feed (renditionBytes crowded)).map (·.rendition.underlineColor) =
    some .default := by
    decide +kernel
  obtain ⟨c, fed, lost⟩ := Option.map_eq_some_iff.mp fed
  exact ⟨c, fed, lost, fun same => nomatch lost.symm.trans (congrArg Rendition.underlineColor same)⟩

end Machinen.Vt
