import Machinen.Mount.ReadOnly

/-! Lexical containment. A path that the handlers put into the inode table consists of
checked names, so every path they hand to the host stays below the mount root. A restored
payload brings its paths unchecked. -/
namespace Machinen.Mount

open Bytes Prog

structure Component (name : Bytes) : Prop where
  nonempty : name ≠ []
  notDot : name ≠ [dot]
  notDotDot : name ≠ [dot, dot]
  noSlash : slash ∉ name
  noNul : 0 ∉ name

theorem validateName_iff (name : Bytes) : validateName name = true ↔ Component name := by
  have plain : (name.all fun c => decide (c ≠ slash) && decide (c ≠ 0)) = true ↔
      slash ∉ name ∧ (0 : UInt8) ∉ name := by
    simp only [List.all_eq_true, Bool.and_eq_true, decide_eq_true_eq]
    constructor
    · exact fun each => ⟨fun inside => (each _ inside).1 rfl, fun inside => (each _ inside).2 rfl⟩
    · rintro ⟨noSlash, noNul⟩ c inside
      exact ⟨fun same => noSlash (same ▸ inside), fun same => noNul (same ▸ inside)⟩
  constructor
  · intro valid
    simp only [validateName, Bool.and_eq_true, decide_eq_true_eq] at valid
    obtain ⟨⟨⟨nonempty, notDot⟩, notDotDot⟩, all⟩ := valid
    exact ⟨nonempty, notDot, notDotDot, (plain.mp all).1, (plain.mp all).2⟩
  · rintro ⟨nonempty, notDot, notDotDot, noSlash, noNul⟩
    simp only [validateName, Bool.and_eq_true, decide_eq_true_eq]
    exact ⟨⟨⟨nonempty, notDot⟩, notDotDot⟩, plain.mpr ⟨noSlash, noNul⟩⟩

/-- What follows a directory's path in the path of what these names lead to. -/
def descent (names : List Bytes) : Bytes := names.flatMap fun name => slash :: name

theorem descent_append (names more : List Bytes) :
    descent (names ++ more) = descent names ++ descent more := List.flatMap_append

def Clean (path : Bytes) : Prop :=
  ∃ names, (∀ name ∈ names, Component name) ∧ path = (descent names).drop 1

/-- The mount root, or a path below it made of components. -/
def Contained (rootAbs path : Bytes) : Prop :=
  ∃ names, (∀ name ∈ names, Component name) ∧ path = rootAbs ++ descent names

theorem slash_drop_descent {names : List Bytes} (some_ : names ≠ []) :
    slash :: (descent names).drop 1 = descent names := by
  cases names with
  | nil => exact absurd rfl some_
  | cons name rest => rfl

theorem drop_descent_nonempty {names : List Bytes} (some_ : names ≠ [])
    (good : ∀ name ∈ names, Component name) : (descent names).drop 1 ≠ [] := by
  cases names with
  | nil => exact absurd rfl some_
  | cons name rest =>
    intro empty
    exact (good name List.mem_cons_self).nonempty (List.append_eq_nil_iff.mp empty).1

theorem descent_cut : ∀ (names : List Bytes) (front back : Bytes),
    (∀ name ∈ names, Component name) → descent names = front ++ slash :: back →
    ∃ rest, rest <:+ names ∧ slash :: back = descent rest := by
  intro names
  induction names with
  | nil => exact fun front back _ same => absurd same (by simp [descent])
  | cons name names ih =>
    intro front back good same
    have split : slash :: (name ++ descent names) = front ++ slash :: back := same
    cases front with
    | nil => exact ⟨name :: names, List.suffix_refl _, split.symm⟩
    | cons c front =>
      have shorter : name ++ descent names = front ++ slash :: back := (List.cons.inj split).2
      rcases List.append_eq_append_iff.mp shorter with ⟨mid, -, tail⟩ | ⟨mid, here, tail⟩
      · obtain ⟨rest, suffix, done⟩ := ih mid back (fun n inside => good n (List.mem_cons_of_mem _ inside))
          tail
        exact ⟨rest, suffix.trans (List.suffix_cons _ _), done⟩
      · cases mid with
        | nil => exact ⟨names, List.suffix_cons _ _, tail⟩
        | cons d mid =>
          have slashed : slash = d := (List.cons.inj tail).1
          exact absurd (by rw [here, slashed]; simp) (good name List.mem_cons_self).noSlash

theorem clean_closed : Closed Clean where
  child := by
    rintro path name ⟨names, good, rfl⟩ valid
    have all : ∀ n ∈ names ++ [name], Component n := by
      intro n inside
      rcases List.mem_append.mp inside with before | now
      · exact good n before
      · exact List.mem_singleton.mp now ▸ (validateName_iff name).mp valid
    refine ⟨names ++ [name], all, ?_⟩
    by_cases none : names = []
    · subst none
      simp [joinRel, descent]
    · rw [joinRel, if_neg (drop_descent_nonempty none good), descent_append,
        ← slash_drop_descent none]
      simp [descent]
  moved := by
    rintro old new path suffix ⟨names, good, rfl⟩ named ⟨inside, clean, rfl⟩ under
    unfold Table.below at under
    split at under
    · rename_i found
      have some_ : names ≠ [] := fun none => named (none ▸ rfl)
      obtain ⟨⟨tail, whole⟩, slashed⟩ := found
      have cut : suffix = tail := by
        rw [← Option.some.inj under, ← whole, List.drop_left]
      rw [Option.some.inj under, cut] at slashed
      obtain ⟨back, starts⟩ := List.head?_eq_some_iff.mp slashed
      have nonempty : inside ≠ [] := by
        intro none
        rw [none, starts] at whole
        exact absurd whole (by simp [descent])
      obtain ⟨rest, suffix', same⟩ := descent_cut inside (slash :: old) back clean (by
        rw [← slash_drop_descent nonempty, ← whole, starts]
        rfl)
      refine ⟨names ++ rest, ?_, ?_⟩
      · intro n listed
        rcases List.mem_append.mp listed with before | after
        · exact good n before
        · exact clean n (suffix'.subset after)
      · rw [cut, starts, same, descent_append, ← slash_drop_descent some_]
        rfl
    · exact absurd under (by simp)

theorem buildAbsPath_contained {rootAbs rel path : Bytes} (clean : Clean rel)
    (built : buildAbsPath rootAbs rel = some path) : Contained rootAbs path := by
  obtain ⟨names, good, rfl⟩ := clean
  refine ⟨names, good, ?_⟩
  by_cases none : names = []
  · subst none
    rw [buildAbsPath, if_pos (show (descent []).drop 1 = [] from rfl)] at built
    split at built
    · exact absurd built (by simp)
    · simpa [descent] using (Option.some.inj built).symm
  · rw [buildAbsPath, if_neg (drop_descent_nonempty none good)] at built
    split at built
    · exact absurd built (by simp)
    · rw [← Option.some.inj built, slash_drop_descent none]

theorem clean_of_contained {rootAbs rel path : Bytes} (built : buildAbsPath rootAbs rel = some path)
    (contained : Contained rootAbs path) : Clean rel := by
  obtain ⟨names, good, rfl⟩ := contained
  refine ⟨names, good, ?_⟩
  unfold buildAbsPath at built
  split at built
  · rename_i empty
    split at built
    · exact absurd built (by simp)
    · have same : descent names = [] := by simpa using (Option.some.inj built).symm
      rw [empty, same]
      rfl
  · split at built
    · exact absurd built (by simp)
    · have same := List.append_cancel_left (Option.some.inj built)
      rw [← same]
      rfl

variable {σ : Type} (host : Host σ)

def CallsContained (rootAbs : Bytes) (s : State σ) : Prop :=
  ∀ c, Event.call c ∈ s.log → ∀ path ∈ c.paths, Contained rootAbs path

/-- The mount resolves clean paths only, and has only ever done so. -/
structure Inside (rootAbs : Bytes) (s : State σ) : Prop where
  root : s.rootAbs = rootAbs
  table : s.table.Within Clean
  calls : CallsContained rootAbs s

namespace Inside

variable {rootAbs : Bytes} {s : State σ}

theorem note (inside : Inside rootAbs s) (event : Event)
    (contained : ∀ c, event = .call c → ∀ path ∈ c.paths, Contained rootAbs path) :
    Inside rootAbs (s.note event) where
  root := inside.root
  table := inside.table
  calls := by
    intro c logged
    rcases List.mem_append.mp logged with before | now
    · exact inside.calls c before
    · exact contained c (List.mem_singleton.mp now).symm

theorem move {T : Prop} {t : State σ} {issued : List Nat} (inside : Inside rootAbs s)
    (moved : Move Clean T s issued t) : Inside rootAbs t := by
  have table := moved.within clean_closed inside.table
  cases moved with
  | call c next paths =>
    have noted := inside.note (.call c) fun d same path listed => by
      cases same
      obtain ⟨rel, clean, built⟩ := paths path listed
      exact buildAbsPath_contained clean (inside.root ▸ built)
    exact ⟨noted.root, noted.table, noted.calls⟩
  | forget nodeid n =>
    have noted := inside.note (.forget nodeid n) nofun
    exact ⟨noted.root, table, noted.calls⟩
  | bind | unindex | retarget | rename | put | release => exact ⟨inside.root, table, inside.calls⟩

theorem serve (inside : Inside rootAbs s) (request : Request) :
    Inside rootAbs (s.serve host request) := by
  have kept : ∀ {issued : List Nat} {t : State σ}, Moves Clean True s issued t → Inside rootAbs t :=
    fun moves => moves.keep (fun _ _ _ before move => before.move move) inside
  rcases serve_moves host clean_closed request inside.table (fun _ => trivial) with
    ⟨reply, t, moves, served⟩ | ⟨issued, t, moves, served⟩
  · rw [served]
    exact (kept moves).note (.reply reply) nofun
  · rw [served]
    exact ⟨(kept moves).root, (kept moves).table, (kept moves).calls⟩

end Inside

theorem init_inside (rootAbs : Bytes) (modeRw : Bool) (h : σ) :
    Inside rootAbs (State.init rootAbs modeRw h) where
  root := rfl
  table := by
    intro nodeid entry looked
    by_cases here : nodeid = 1
    · subst here
      rw [show entry = ⟨[], nlookupPinned⟩ from (Option.some.inj looked).symm]
      exact ⟨[], nofun, rfl⟩
    · rw [State.init, Table.init, Table.lookup, AList.lookup_insert_ne here] at looked
      exact absurd looked (by simp)
  calls := fun _ logged => absurd logged List.not_mem_nil

section Restore

variable {rootAbs : Bytes}

theorem attempt_inside (c : Call) (contained : ∀ path ∈ c.paths, Contained rootAbs path) :
    Keeps (Inside rootAbs) (attempt host c) := by
  apply Keeps.get.andThen
  intro u
  apply Keeps.andThen
  · apply Keeps.set
    intro t inside
    have noted := inside.note (.call c) fun d same => Event.call.inj same ▸ contained
    exact ⟨noted.root, noted.table, noted.calls⟩
  · exact fun _ => Keeps.ret _

theorem freeHandle_inside (entry : OpenEntry) : Keeps (Inside rootAbs) (freeHandle host entry) := by
  unfold freeHandle
  split
  · exact (attempt_inside host _ fun _ listed => absurd listed List.not_mem_nil).andThen
      fun _ => Keeps.ret _
  · exact Keeps.ret _

theorem reopenHandle_inside (nodeid flags : Nat) :
    Keeps (Inside rootAbs) (reopenHandle host nodeid flags) := by
  apply Triple.learn (Triple.get (Q := fun u t => Inside rootAbs u ∧ Inside rootAbs t)
    fun _ inside => ⟨inside, inside⟩)
  intro u inside
  split
  · exact Keeps.ret _
  · rename_i abs resolved
    obtain ⟨entry, looked, built⟩ := Option.bind_eq_some_iff.mp resolved
    have contained := buildAbsPath_contained (inside.table nodeid entry looked) (inside.root ▸ built)
    apply Keeps.andThen
    · exact attempt_inside host _ fun path listed => List.mem_singleton.mp listed ▸ contained
    · intro answer
      cases answer with
      | ok fd => exact Keeps.ret _
      | error e => exact Keeps.ret _

theorem restoreHandle_inside (rec : HandleRec) : Keeps (Inside rootAbs) (restoreHandle host rec) := by
  have put : ∀ handles : State σ → AList fun _ : Nat => OpenEntry, Keeps (Inside rootAbs)
      (change fun t : State σ => t.setHandles (handles t) : Handler σ PUnit) :=
    fun handles => Keeps.set _ fun t inside => ⟨inside.root, inside.table, inside.calls⟩
  cases rec with
  | file handleId nodeid flags => exact (reopenHandle_inside host nodeid flags).andThen fun _ => put _
  | dir handleId nodeid flags entries => exact put _

theorem restore_within {G : Bytes → Prop} (recs : List InodeRec) (nextInode : Nat)
    (good : ∀ r ∈ recs, G r.path) : (Table.restore recs nextInode).Within G := by
  have grow : ∀ (rest : List InodeRec) (t : Table), (∀ r ∈ rest, G r.path) → t.Within G →
      (rest.foldl (fun t r => (t.setInode r.nodeid ⟨r.path, r.nlookup⟩).putIndex r.path r.nodeid) t).Within
        G := by
    intro rest
    induction rest with
    | nil => exact fun _ _ within => within
    | cons r rest ih =>
      intro t each within
      apply ih _ fun r' listed => each r' (List.mem_cons_of_mem _ listed)
      exact within.setInode r.nodeid ⟨r.path, r.nlookup⟩ (each r List.mem_cons_self)
  exact grow recs _ good fun nodeid entry looked => by simp [Table.lookup] at looked

theorem applyState_inside {s : State σ} (inside : Inside rootAbs s) (payload : Bytes)
    (clean : ∀ d, decodeState payload = .ok d → ∀ r ∈ d.inodes, Clean r.path) :
    Inside rootAbs (s.applyState host payload) := by
  unfold State.applyState
  split
  · exact inside
  · rename_i d decoded
    have applied : Keeps (Inside rootAbs) (applyDecoded host d) := by
      apply Keeps.get.andThen
      intro u
      apply (Keeps.loop (fun entry : Sigma fun _ : Nat => OpenEntry => freeHandle_inside host entry.2)
        _).andThen
      intro _
      apply Keeps.andThen
      · apply Keeps.set
        intro t before
        exact ⟨before.root, restore_within d.inodes d.nextInode (clean d decoded), before.calls⟩
      · exact fun _ => Keeps.loop (restoreHandle_inside host) _
    exact applied.result inside

end Restore

/-- A mount fresh from boot, or one that a payload with clean paths was applied to. -/
inductive CleanStart (rootAbs : Bytes) : State σ → Prop where
  | fresh (modeRw : Bool) (h : σ) : CleanStart rootAbs (State.init rootAbs modeRw h)
  | restored {s : State σ} (before : CleanStart rootAbs s) (payload : Bytes)
      (clean : ∀ d, decodeState payload = .ok d → ∀ r ∈ d.inodes, Clean r.path) :
      CleanStart rootAbs (s.applyState host payload)

theorem CleanStart.inside {rootAbs : Bytes} {s : State σ} (start : CleanStart host rootAbs s) :
    Inside rootAbs s := by
  induction start with
  | fresh modeRw h => exact init_inside rootAbs modeRw h
  | restored _ payload clean ih => exact applyState_inside host ih payload clean

theorem stray_path_escapes {s : State σ} {nodeid : Nat} {entry : InodeEntry} {abs : Bytes}
    (alive : s.trapped = false) (small : nodeid < 256 ^ 8) (looked : s.table.lookup nodeid = some entry)
    (built : buildAbsPath s.rootAbs entry.relPath = some abs) (stray : ¬ Clean entry.relPath) :
    ∃ t, s.step host (.of 3 nodeid [] s.table.inodes.keys) = some t ∧ ¬ CallsContained s.rootAbs t := by
  let request := Request.of 3 nodeid [] s.table.inodes.keys
  have header : readInHeader request.frame = ⟨3, 1, nodeid⟩ :=
    readInHeader_of 3 nodeid [] _ (by decide) small
  have whole : ¬ request.frame.length < fuseInHeaderSize := by
    simp [request, Request.of, fuseInHeaderSize]
  refine ⟨s.serve host request, ?_, ?_⟩
  · have order : request.order.Perm s.table.inodes.keys := List.Perm.refl _
    rw [State.step, if_neg (by rw [alive]; exact Bool.false_ne_true), if_neg whole, if_pos order]
  · intro contained
    have resolved : s.openPath nodeid = some abs := by
      simp only [State.openPath, looked, Option.bind_some, built]
    have asked : Event.call (.lstat abs) ∈ (s.serve host request).log := by
      have tail : Triple (fun _ => True) (do
          let st : Stat ← sys host (.lstat abs)
          let attr ← attrOf st nodeid
          pure (Reply.attr attr))
          (fun _ t => Event.call (.lstat abs) ∈ t.log) (fun _ t => Event.call (.lstat abs) ∈ t.log) :=
        (sys_logs host _).andThen fun st => Keeps.andThen (Keeps.found _ _) fun _ => Keeps.ret _
      have handled := handle_log host s request
      rw [header, show handle host request.order ⟨3, 1, nodeid⟩ (bodyOf request.frame) =
        onGetattr host nodeid from rfl, onGetattr, bind_ok (inodePath_known resolved)] at handled
      exact handled.subset (tail.final trivial)
    exact stray (clean_of_contained built (contained _ asked abs List.mem_cons_self))

theorem host_paths_contained {rootAbs : Bytes} {s t : State σ} (start : CleanStart host rootAbs s)
    (requests : List Request) (run : s.exec host requests = some t) : CallsContained rootAbs t := by
  have keeps : ∀ (u : State σ) (request : Request) (v : State σ), Inside rootAbs u →
      u.step host request = some v → Inside rootAbs v := fun u request v inside moved =>
    step_serve host moved ▸ inside.serve host request
  exact (Run.exec_invariant keeps requests start.inside run).calls

theorem host_paths_contained_restored :
    ∃ t, ((State.init [slash] true ()).applyState Host.idle (encodeState (writtenMount true))).exec
        Host.idle [.of 3 2 [] [1, 2]] = some t ∧ CallsContained [slash] t := by
  have ran : (((State.init [slash] true ()).applyState Host.idle (encodeState (writtenMount true))).exec
      Host.idle [.of 3 2 [] [1, 2]]).isSome = true := by decide +kernel
  obtain ⟨t, run⟩ := Option.isSome_iff_exists.mp ran
  have a : Component [0x61] := (validateName_iff _).mp rfl
  have clean : ∀ d, decodeState (encodeState (writtenMount true)) = .ok d → ∀ r ∈ d.inodes,
    Clean r.path := by
    intro d decoded r listed
    have known : decodeState (encodeState (writtenMount true)) = .ok (writtenMount true) := by
      decide +kernel
    cases Except.ok.inj (known.symm.trans decoded)
    rcases List.mem_cons.mp listed with rfl | listed
    · exact ⟨[], nofun, rfl⟩
    · cases List.mem_singleton.mp listed
      exact ⟨[[0x61]], fun name inside => List.mem_singleton.mp inside ▸ a, rfl⟩
  exact ⟨t, run, host_paths_contained Host.idle (.restored (.fresh true ()) _ clean) _ run⟩

theorem not_clean_dotDot : ¬ Clean [dot, dot] := by
  rintro ⟨names, good, same⟩
  cases names with
  | nil => exact absurd same (by decide)
  | cons name rest =>
    have first := good name List.mem_cons_self
    have split : name ++ descent rest = [dot, dot] := same.symm
    cases rest with
    | nil => exact first.notDotDot (by simpa [descent] using split)
    | cons next more =>
      have slashed : slash ∈ [dot, dot] := split ▸ List.mem_append_right _ List.mem_cons_self
      exact absurd slashed (by decide)

/-- A payload whose inode 2 has the path `..`. -/
def climbingMount : Decoded := ⟨true, 3, 1, [⟨1, nlookupPinned, []⟩, ⟨2, 1, [dot, dot]⟩], []⟩

/-- GETATTR of that inode. -/
theorem restored_path_escapes :
    ¬ ∀ payload requests t, ((State.init [slash] true ()).applyState Host.idle payload).exec Host.idle
      requests = some t → CallsContained [slash] t := by
  intro contained
  let s := (State.init [slash] true ()).applyState Host.idle (encodeState climbingMount)
  have looked : s.table.lookup 2 = some ⟨[dot, dot], 1⟩ := by decide +kernel
  have rooted : s.rootAbs = [slash] := by decide +kernel
  have built : buildAbsPath s.rootAbs [dot, dot] = some [slash, slash, dot, dot] := by
    rw [rooted]
    rfl
  have alive : s.trapped = false := by decide +kernel
  obtain ⟨t, moved, escaped⟩ :=
    stray_path_escapes Host.idle alive (by decide) looked built not_clean_dotDot
  rw [rooted] at escaped
  refine escaped (contained (encodeState climbingMount) [.of 3 2 [] s.table.inodes.keys] t ?_)
  simp only [State.exec, Run.exec]
  exact (congrArg (fun next => next.bind some) moved).trans rfl

end Machinen.Mount
