import Machinen.Mount.Renaming
import Machinen.Mount.MemoryHost

/-! A nodeid stands for one file. The host's tree gives every file an identity, and the
kernel remembers for every nodeid which file it was first given for. -/
namespace Machinen.Mount

open Bytes Prog PathTree

variable {σ : Type}

variable {old new : Bytes} {isDir : Bool} {order : List Nat} {table : Table} {s : State σ}
  {request : Request}

structure Faithful (tree : FileTree UInt8) (next : Nat) (t : Table) (owner : Nat → Option Nat) : Prop where
  owned : ∀ nodeid id, owner nodeid = some id → id < next
  indexed : ∀ path nodeid, path ≠ [] → t.at_ path = some nodeid →
    ∃ f, tree path = some f ∧ owner nodeid = some f.id
  current : ∀ nodeid path f, nodeid ≠ 1 → t.pathOf nodeid ≠ none → owner nodeid = some f.id →
    tree path = some f → t.pathOf nodeid = some path ∧ t.at_ path = some nodeid

namespace Faithful

variable {tree : FileTree UInt8} {next : Nat} {t : Table} {owner : Nat → Option Nat} {held : Nat → Nat}

theorem retable (fa : Faithful tree next t owner) {u : Table} (paths : u.pathOf = t.pathOf)
    (index : u.at_ = t.at_) : Faithful tree next u owner :=
  ⟨fa.owned, index ▸ fa.indexed, index ▸ paths ▸ fa.current⟩

theorem later (fa : Faithful tree next t owner) {more : Nat} (le : next ≤ more) :
    Faithful tree more t owner :=
  ⟨fun nodeid id known => Nat.lt_of_lt_of_le (fa.owned nodeid id known) le, fa.indexed, fa.current⟩

theorem created (fa : Faithful tree next t owner) {path : Bytes} {file : File}
    (absent : tree path = none) (fresh : next ≤ file.id) :
    Faithful (Function.update tree path (some file)) next t owner where
  owned := fa.owned
  indexed := by
    intro other nodeid named found
    obtain ⟨f, there, known⟩ := fa.indexed other nodeid named found
    have ne : other ≠ path := by
      rintro rfl
      rw [absent] at there
      exact nomatch there
    exact ⟨f, by rw [Function.update_of_ne ne, there], known⟩
  current := by
    intro nodeid other f notRoot lives known there
    by_cases here : other = path
    · rw [here, Function.update_self] at there
      cases Option.some.inj there
      exact absurd (fa.owned nodeid _ known) (Nat.not_lt.mpr fresh)
    · rw [Function.update_of_ne here] at there
      exact fa.current nodeid other f notRoot lives known there

theorem removed (fa : Faithful tree next t owner) (path : Bytes) :
    Faithful (Function.update tree path none) next (t.unindex path) owner where
  owned := fa.owned
  indexed := by
    intro other nodeid named found
    rw [Table.at_unindex] at found
    by_cases here : other = path
    · rw [here, Function.update_self] at found
      exact nomatch found
    · rw [Function.update_of_ne here] at found ⊢
      exact fa.indexed other nodeid named found
  current := by
    intro nodeid other f notRoot lives known there
    by_cases here : other = path
    · rw [here, Function.update_self] at there
      exact nomatch there
    · rw [Function.update_of_ne here] at there
      rw [Table.at_unindex, Function.update_of_ne here]
      exact fa.current nodeid other f notRoot lives known there

/-- Which file a nodeid that is answered for a file stands for from now on. -/
def learn (owner : Nat → Option Nat) (held : Nat → Nat) (nodeid id : Nat) : Nat → Option Nat :=
  if held nodeid = 0 then Function.update owner nodeid (some id) else owner

theorem bound (fa : Faithful tree next t owner) (ok : Consistent t held) (wf : WellFormed slash tree next)
    {path : Bytes} {file : File} (named : path ≠ []) (there : tree path = some file) :
    Faithful tree next (t.bindInode path).2 (learn owner held (t.bindInode path).1 file.id) ∧
      (held (t.bindInode path).1 ≠ 0 → owner (t.bindInode path).1 = some file.id) := by
  rcases ok.bind_spec path with ⟨nodeid, found, same, paths, index⟩ | ⟨absent, same, paths, index⟩
  · obtain ⟨f, here, known⟩ := fa.indexed path nodeid named found
    cases Option.some.inj (there.symm.trans here)
    have lives := ok.at_path found
    obtain ⟨entry, looked, own⟩ := Option.map_eq_some_iff.mp lives
    have notRoot := ok.notRoot looked (own ▸ named)
    have counted := (ok.counted nodeid entry notRoot looked).2
    rw [same, learn, if_neg (Nat.ne_of_gt counted)]
    exact ⟨fa.retable paths index, fun _ => known⟩
  · have unknown := ok.fresh t.nextInode (Nat.le_refl _)
    have zero : held t.nextInode = 0 := ok.dropped _ (Nat.ne_of_gt ok.next) unknown
    rw [same, learn, if_pos zero]
    refine ⟨⟨?_, ?_, ?_⟩, fun counted => absurd zero counted⟩
    · intro nodeid id known
      by_cases new : nodeid = t.nextInode
      · rw [new, Function.update_self] at known
        exact Option.some.inj known ▸ wf.bounded path file there
      · rw [Function.update_of_ne new] at known
        exact fa.owned nodeid id known
    · intro other nodeid otherNamed found
      rw [index] at found
      by_cases here : other = path
      · rw [here, Function.update_self] at found
        cases Option.some.inj found
        exact ⟨file, here ▸ there, Function.update_self ..⟩
      · rw [Function.update_of_ne here] at found
        have old : nodeid ≠ t.nextInode := by
          rintro rfl
          have lives := ok.at_path found
          rw [Table.pathOf, unknown] at lives
          cases lives
        rw [Function.update_of_ne old]
        exact fa.indexed other nodeid otherNamed found
    · intro nodeid other f notRoot lives known found
      rw [paths, index]
      by_cases new : nodeid = t.nextInode
      · subst new
        rw [Function.update_self] at known
        have place := wf.distinct path other file f there found (Option.some.inj known)
        subst place
        exact ⟨Function.update_self .., Function.update_self ..⟩
      · rw [Function.update_of_ne new] at known
        rw [paths, Function.update_of_ne new] at lives
        obtain ⟨own, at_⟩ := fa.current nodeid other f notRoot lives known found
        have ne : other ≠ path := by
          rintro rfl
          rw [absent] at at_
          cases at_
        exact ⟨by rw [Function.update_of_ne new, own], by rw [Function.update_of_ne ne, at_]⟩

theorem forgotten (fa : Faithful tree next t owner) (nodeid n : Nat) :
    Faithful tree next (t.decrefInode nodeid n) owner := by
  rcases t.decref_spec nodeid n with ⟨paths, index⟩ | ⟨own, lives, paths, index⟩
  · exact fa.retable paths index
  refine ⟨fa.owned, ?_, ?_⟩
  · intro other found named at_
    rw [index] at at_
    split at at_
    · by_cases here : other = own
      · rw [here, Function.update_self] at at_
        exact nomatch at_
      · rw [Function.update_of_ne here] at at_
        exact fa.indexed other found named at_
    · exact fa.indexed other found named at_
  · intro other path f notRoot still known there
    rw [paths] at still ⊢
    have ne : other ≠ nodeid := by
      rintro rfl
      rw [Function.update_self] at still
      exact still rfl
    rw [Function.update_of_ne ne] at still ⊢
    obtain ⟨place, at_⟩ := fa.current other path f notRoot still known there
    refine ⟨place, ?_⟩
    rw [index]
    split
    · rename_i mine
      have away : path ≠ own := by
        rintro rfl
        exact ne (Option.some.inj (at_.symm.trans mine))
      rw [Function.update_of_ne away, at_]
    · exact at_

theorem first_move (ok : Consistent t held)
    (done : t.updateBoundInodesAfterRename old new isDir order = some table) :
    ∃ u : Table, table = (if isDir then order.foldl (Table.moveBelow old new) u else u) ∧
      (∀ nodeid, u.pathOf nodeid = if t.at_ old = some nodeid then some new else t.pathOf nodeid) ∧
      (∀ path, u.at_ path = if t.at_ old = none then t.at_ path else if path = new then t.at_ old
        else if path = old then none else t.at_ path) := by
  obtain ⟨u, moved, rfl⟩ := Option.map_eq_some_iff.mp done
  refine ⟨u, rfl, ?_⟩
  cases found : t.pathIndex old with
  | none =>
    rw [found] at moved
    cases Option.some.inj moved
    have none_ : t.at_ old = none := by rw [Table.at_, found]; rfl
    exact ⟨fun nodeid => by rw [none_]; rfl, fun path => by rw [if_pos none_]⟩
  | some there =>
    rw [found] at moved
    have some_ : t.at_ old = some there.nodeid := by rw [Table.at_, found]; rfl
    obtain ⟨paths, index⟩ := Table.replace_spec (ok.at_path some_) moved
    constructor
    · intro nodeid
      rw [paths, some_]
      by_cases here : nodeid = there.nodeid
      · rw [here, Function.update_self, if_pos rfl]
      · rw [Function.update_of_ne here, if_neg fun same => here (Option.some.inj same).symm]
    · intro path
      rw [index, some_, if_neg (Option.some_ne_none _)]
      by_cases isNew : path = new
      · rw [isNew, Function.update_self, if_pos rfl]
      · rw [Function.update_of_ne isNew, if_neg isNew]
        by_cases isOld : path = old
        · rw [isOld, Function.update_self, if_pos rfl]
        · rw [Function.update_of_ne isOld, if_neg isOld]

theorem renamed_table (ok : Consistent t held) (apart : Table.Apart old new) (once : order.Nodup)
    (done : t.updateBoundInodesAfterRename old new isDir order = some table) :
    ∃ (u : Table) (ids : List Nat), (isDir = true → ids = order) ∧ (isDir = false → ids = []) ∧
      (∀ nodeid, u.pathOf nodeid = if t.at_ old = some nodeid then some new else t.pathOf nodeid) ∧
      (∀ path, u.at_ path = if t.at_ old = none then t.at_ path else if path = new then t.at_ old
        else if path = old then none else t.at_ path) ∧ Table.Swept old new u ids table := by
  obtain ⟨u, rfl, paths, index⟩ := first_move ok done
  cases isDir with
  | true => exact ⟨u, order, fun _ => rfl, nofun, paths, index, Table.swept apart u order once⟩
  | false => exact ⟨u, [], nofun, fun _ => rfl, paths, index, Table.swept apart u [] List.nodup_nil⟩

theorem renamed (fa : Faithful tree next t owner) (ok : Consistent t held) (named : old ≠ [] ∧ new ≠ [])
    (once : order.Nodup) (all : ∀ nodeid, t.pathOf nodeid ≠ none → nodeid ∈ order)
    (different : old ≠ new) (apart : ¬ AtOrUnder slash old new ∧ ¬ AtOrUnder slash new old)
    (vacant : ∀ path, Under slash new path → tree path = none)
    (flat : isDir = false → ∀ path, Under slash old path → tree path = none)
    (covered : t.at_ old = none → t.at_ new = none)
    (undisturbed : isDir = true → t.Undisturbed old order)
    (done : t.updateBoundInodesAfterRename old new isDir order = some table) :
    Faithful (tree.move slash old new) next table owner := by
  obtain ⟨u, ids, dirIds, plainIds, paths, index, sw⟩ := renamed_table ok (fun _ => apart) once done
  have oldOutside : ∀ s : Bytes, s.head? = some slash → old ++ s ≠ new ∧ old ++ s ≠ old := by
    intro s cut
    refine ⟨fun same => apart.1 ⟨s, same.symm, .inr cut⟩, fun same => ?_⟩
    rw [List.append_right_eq_self.mp same] at cut
    exact nomatch cut
  have newOutside : ∀ s : Bytes, s.head? = some slash → new ++ s ≠ new ∧ new ++ s ≠ old := by
    intro s cut
    refine ⟨fun same => ?_, fun same => apart.2 ⟨s, same.symm, .inr cut⟩⟩
    rw [List.append_right_eq_self.mp same] at cut
    exact nomatch cut
  have indexElse : ∀ path, path ≠ new → path ≠ old → u.at_ path = t.at_ path := by
    intro path ne ne'
    rw [index, if_neg ne, if_neg ne', ite_self]
  have newIndex : u.at_ new = t.at_ old := by
    rw [index]
    by_cases none_ : t.at_ old = none
    · rw [if_pos none_, covered none_, none_]
    · rw [if_neg none_, if_pos rfl]
  have oldIndex : u.at_ old = none := by
    rw [index]
    by_cases none_ : t.at_ old = none
    · rw [if_pos none_, none_]
    · rw [if_neg none_, if_neg different, if_pos rfl]
  -- Inside the old directory the first move changed nothing.
  have inside : ∀ s : Bytes, s.head? = some slash → ∀ nodeid,
      u.pathOf nodeid = some (old ++ s) ↔ t.pathOf nodeid = some (old ++ s) := by
    intro s cut nodeid
    rw [paths]
    split
    · rename_i mine
      rw [ok.at_path mine]
      constructor
      · exact fun same => absurd (Option.some.inj same).symm (oldOutside s cut).1
      · exact fun same => absurd (Option.some.inj same).symm (oldOutside s cut).2
    · exact Iff.rfl
  have visited : ∀ s : Bytes, s.head? = some slash → ∀ nodeid, isDir = true →
      u.lastAt ids (old ++ s) = some nodeid → t.at_ (old ++ s) = some nodeid := by
    intro s cut nodeid dir last
    rw [dirIds dir, Table.lastAt_congr (inside s cut)] at last
    exact undisturbed dir _ nodeid ⟨s, rfl, cut⟩ last
  have reached : ∀ s : Bytes, s.head? = some slash → ∀ nodeid, isDir = true →
      t.pathOf nodeid = some (old ++ s) →
      (u.lastAt ids (old ++ s)).isSome = true := by
    intro s cut nodeid dir lives
    rw [dirIds dir]
    exact Table.lastAt_some order (all nodeid (by rw [lives]; exact nofun))
      ((inside s cut nodeid).mpr lives)
  have bare : ∀ s : Bytes, s.head? = some slash → isDir = false → t.at_ (old ++ s) = none := by
    intro s cut plain
    cases found : t.at_ (old ++ s) with
    | none => rfl
    | some nodeid =>
      obtain ⟨f, there, -⟩ := fa.indexed (old ++ s) nodeid
        (List.append_ne_nil_of_left_ne_nil named.1 s) found
      rw [flat plain _ ⟨s, rfl, cut⟩] at there
      exact nomatch there
  refine ⟨fa.owned, ?_, ?_⟩
  · intro path nodeid pathNamed found
    by_cases inNew : Under slash new path
    · obtain ⟨s, rfl, cut⟩ := inNew
      rw [move_new (.inr cut)]
      rw [sw.moved s cut] at found
      cases last : u.lastAt ids (old ++ s) with
      | some other =>
        rw [last] at found
        cases Option.some.inj found
        cases dir : isDir with
        | true =>
          exact fa.indexed (old ++ s) nodeid (List.append_ne_nil_of_left_ne_nil named.1 s)
            (visited s cut nodeid dir last)
        | false =>
          rw [plainIds dir] at last
          exact nomatch last
      | none =>
        rw [last, Option.none_or, indexElse _ (newOutside s cut).1 (newOutside s cut).2] at found
        obtain ⟨f, there, -⟩ := fa.indexed (new ++ s) nodeid pathNamed found
        rw [vacant _ ⟨s, rfl, cut⟩] at there
        exact nomatch there
    by_cases inOld : Under slash old path
    · obtain ⟨s, rfl, cut⟩ := inOld
      rw [sw.emptied different s cut] at found
      by_cases unreached : (u.lastAt ids (old ++ s)).isSome = true
      · rw [if_pos unreached] at found
        exact nomatch found
      · rw [if_neg unreached, indexElse _ (oldOutside s cut).1 (oldOutside s cut).2] at found
        cases dir : isDir with
        | true => exact absurd (reached s cut nodeid dir (ok.at_path found)) unreached
        | false =>
          rw [bare s cut dir] at found
          exact nomatch found
    rw [sw.others path inNew inOld] at found
    by_cases isNew : path = new
    · subst isNew
      rw [newIndex] at found
      obtain ⟨f, there, known⟩ := fa.indexed old nodeid named.1 found
      exact ⟨f, by rw [move_self, there], known⟩
    by_cases isOld : path = old
    · subst isOld
      rw [oldIndex] at found
      exact nomatch found
    rw [indexElse path isNew isOld] at found
    obtain ⟨f, there, known⟩ := fa.indexed path nodeid pathNamed found
    have notNew : ¬ AtOrUnder slash new path := fun at_ => (atOrUnder_iff.mp at_).elim isNew inNew
    have notOld : ¬ AtOrUnder slash old path := fun at_ => (atOrUnder_iff.mp at_).elim isOld inOld
    exact ⟨f, by rw [move_other notNew notOld, there], known⟩
  · intro nodeid path f notRoot lives known found
    have alive : t.pathOf nodeid ≠ none := by
      intro dead
      apply lives
      have unlisted : t.at_ old ≠ some nodeid := by
        intro mine
        rw [ok.at_path mine] at dead
        exact nomatch dead
      rw [sw.paths, paths, if_neg unlisted, dead, Option.map_none, ite_self]
    rcases move_some found with ⟨s, tail, rfl, was⟩ | ⟨notNew, notOld, was⟩
    · obtain ⟨own, at_⟩ := fa.current nodeid (old ++ s) f notRoot alive known was
      rcases tail with rfl | cut
      · rw [List.append_nil] at own at_ ⊢
        have newAlone : ∀ dir, dir = new ∨ dir = old → ¬ Under slash dir new := by
          rintro dir (rfl | rfl) under
          · exact absurd under.length (Nat.lt_irrefl _)
          · exact apart.1 under.atOrUnder
        constructor
        · rw [sw.paths, paths, if_pos at_, Option.map_some, Table.shift_outside (newAlone old (.inr rfl)),
            ite_self]
        · rw [sw.others new (newAlone new (.inl rfl)) (newAlone old (.inr rfl)), newIndex, at_]
      · cases dir : isDir with
        | false =>
          rw [bare s cut dir] at at_
          exact nomatch at_
        | true =>
          have notFirst : t.at_ old ≠ some nodeid := by
            intro mine
            exact (oldOutside s cut).2 (Option.some.inj (own.symm.trans (ok.at_path mine)))
          have listed : nodeid ∈ ids := dirIds dir ▸ all nodeid alive
          constructor
          · rw [sw.paths, if_pos listed, paths, if_neg notFirst, own, Option.map_some,
              Table.shift_under cut]
          · obtain ⟨other, last⟩ := Option.isSome_iff_exists.mp (reached s cut nodeid dir own)
            rw [sw.moved s cut, last]
            exact (visited s cut other dir last).symm.trans at_
    · obtain ⟨own, at_⟩ := fa.current nodeid path f notRoot alive known was
      have isNew : path ≠ new := fun same => notNew (same ▸ AtOrUnder.refl path)
      have isOld : path ≠ old := fun same => notOld (same ▸ AtOrUnder.refl path)
      have notFirst : t.at_ old ≠ some nodeid := fun mine =>
        isOld (Option.some.inj (own.symm.trans (ok.at_path mine)))
      have outside : ¬ Under slash old path := fun under => notOld under.atOrUnder
      constructor
      · rw [sw.paths, paths, if_neg notFirst, own, Option.map_some, Table.shift_outside outside, ite_self]
      · rw [sw.others path (fun under => notNew under.atOrUnder) outside, indexElse path isNew isOld, at_]

theorem renamed_self (fa : Faithful tree next t owner) (ok : Consistent t held) {path : Bytes} (once : order.Nodup)
    (undisturbed : isDir = true → t.Undisturbed path order)
    (done : t.updateBoundInodesAfterRename path path isDir order = some table) :
    Faithful tree next table owner := by
  obtain ⟨u, ids, dirIds, plainIds, paths, index, sw⟩ :=
    renamed_table ok (fun different => absurd rfl different) once done
  have samePaths : u.pathOf = t.pathOf := by
    funext nodeid
    rw [paths]
    split
    · rename_i mine
      exact (ok.at_path mine).symm
    · rfl
  have sameIndex : u.at_ = t.at_ := by
    funext other
    rw [index]
    by_cases here : other = path
    · rw [here, if_pos rfl, ite_self]
    · rw [if_neg here, if_neg here, ite_self]
  have stays : Table.shift path path = id := by
    funext other
    by_cases under : Under slash path other
    · obtain ⟨s, rfl, cut⟩ := under
      exact Table.shift_under cut
    · exact Table.shift_outside under
  apply fa.retable
  · funext nodeid
    rw [sw.paths, stays, Option.map_id, id, ite_self, samePaths]
  · funext other
    by_cases under : Under slash path other
    · obtain ⟨s, rfl, cut⟩ := under
      rw [sw.moved s cut, sameIndex]
      cases last : u.lastAt ids (path ++ s) with
      | none => rfl
      | some nodeid =>
        cases dir : isDir with
        | true =>
          have same : ∀ other, u.pathOf other = some (path ++ s) ↔ t.pathOf other = some (path ++ s) := by
            rw [samePaths]
            exact fun _ => Iff.rfl
          rw [dirIds dir, Table.lastAt_congr same] at last
          exact (undisturbed dir _ nodeid ⟨s, rfl, cut⟩ last).symm
        | false =>
          rw [plainIds dir] at last
          exact nomatch last
    · rw [sw.others other under under, sameIndex]

end Faithful

/-- The mount, with what the kernel has seen of it: the file each nodeid was first given
for, and whether a nodeid it still holds was ever answered for another file. -/
structure Observed (σ : Type) where
  mount : State σ
  owner : Nat → Option Nat := fun _ => none
  confused : Bool := false

def Request.path (s : State σ) (request : Request) : Option Bytes :=
  match request.names with
  | [(parent, name)] => (s.table.lookup parent).map fun entry => joinRel entry.relPath name
  | _ => none

def State.answer (s : State σ) : Option Nat :=
  match s.log.getLast? with
  | some (.reply reply) => reply.issued
  | _ => none

section Machine

variable (host : Host σ) (tree : σ → FileTree UInt8)

def Observed.see (o : Observed σ) (request : Request) (t : State σ) : Observed σ :=
  match t.answer, request.path o.mount with
  | some nodeid, some rel =>
    let file := (tree t.host rel).map File.id
    if refs o.mount.log nodeid = 0 then
      { mount := t, owner := Function.update o.owner nodeid file, confused := o.confused }
    else { mount := t, owner := o.owner, confused := o.confused || o.owner nodeid != file }
  | _, _ => { o with mount := t }

def Observed.step (o : Observed σ) (request : Request) : Option (Observed σ) :=
  (o.mount.step host request).map (o.see tree request)

/-- A request that leaves no doubt which file its nodeids mean: no LINK, no path through a
symbolic link, no RENAME of a file unknown to the index over one that it has, and no RENAME
of a directory that takes an entry of the index away from its inode. -/
structure Orderly (s : State σ) (request : Request) : Prop where
  tidy : Tidy host s request
  noLink : Op.ofCode (readInHeader request.frame).opcode ≠ .link
  direct : ∀ parent name entry dir f, (parent, name) ∈ request.names →
    s.table.lookup parent = some entry → Under slash dir (joinRel entry.relPath name) →
    tree s.host dir = some f → f.kind ≠ .symlink
  covered : ∀ old new oldAbs newAbs isDir, Renames host s request old new oldAbs newAbs isDir →
    s.table.at_ old = none → s.table.at_ new = none
  undisturbed : ∀ old new oldAbs newAbs isDir, Renames host s request old new oldAbs newAbs isDir →
    isDir = true → s.table.Undisturbed old request.order

end Machine

section Steps

variable {host : Host σ} {rootAbs : Bytes} {tree : σ → FileTree UInt8} {next : σ → Nat}

theorem TreeHost.calmly (files : TreeHost host rootAbs tree next) {h k : σ} (calm : Calm host h k) :
    tree k = tree h ∧ next h ≤ next k := by
  induction calm with
  | none => exact ⟨rfl, Nat.le_refl _⟩
  | more before c still ih =>
    exact ⟨(files.calm _ c still).trans ih.1, Nat.le_trans ih.2 (files.grows _ c)⟩

theorem Orderly.resolves (orderly : Orderly host tree s request) (inside : Inside rootAbs s)
    {parent : Nat} {name rel abs : Bytes} (named : (parent, name) ∈ request.names)
    (child : Child s parent name rel abs) : Resolves rootAbs (tree s.host) rel abs := by
  obtain ⟨entry, found, rfl⟩ := child.found
  exact ⟨clean_closed.child _ _ (inside.table parent entry found) child.valid,
    joinRel_nonempty child.valid, inside.root ▸ child.built,
    fun dir f under there => orderly.direct parent name entry dir f named found under there⟩

theorem Names.path {rel abs : Bytes} (names : Names s request rel abs) :
    request.path s = some rel := by
  obtain ⟨parent, name, only, child⟩ := names
  obtain ⟨entry, found, rfl⟩ := child.found
  simp only [Request.path, only, found, Option.map_some]

structure Recognized (rootAbs : Bytes) (tree : σ → FileTree UInt8) (next : σ → Nat) (s : State σ)
    (owner : Nat → Option Nat) : Prop where
  consistent : Consistent s.table (refs s.log)
  inside : Inside rootAbs s
  wf : WellFormed slash (tree s.host) (next s.host)
  faithful : Faithful (tree s.host) (next s.host) s.table owner

theorem After.files {t : State σ} {c : Call} (files : TreeHost host rootAbs tree next)
    (after : After host (s.called host c) table t) :
    tree t.host = tree (host.after s.host c) ∧ next (host.after s.host c) ≤ next t.host :=
  files.calmly after.calm

theorem forgetAll_faithful {owner : Nat → Option Nat} {files : FileTree UInt8} {n : Nat}
    (records : List (Nat × Nat)) : ∀ s : State σ,
    Consistent s.table (refs s.log) → s.table.Unpinned → ¬ s.table.FreesIn records →
    Faithful files n s.table owner →
    Faithful files n (s.forgetAll records).table owner ∧ (s.forgetAll records).host = s.host := by
  induction records with
  | nil => exact fun s _ _ _ fa => ⟨fa, rfl⟩
  | cons record rest ih =>
    intro s ok unpinned keeps fa
    obtain ⟨now, later⟩ := not_or.mp keeps
    have one : Consistent (s.table.decrefInode record.1 record.2)
        (refs (s.log ++ [.forget record.1 record.2])) := by
      rw [refs_forget]
      exact ok.decrefInode unpinned now
    exact ih ((s.note (.forget record.1 record.2)).setTable (s.table.decrefInode record.1 record.2)) one
      (unpinned.decrefInode _ _) later (fa.forgotten record.1 record.2)

theorem After.wf {t : State σ} {c : Call} (files : TreeHost host rootAbs tree next)
    (before : WellFormed slash (tree s.host) (next s.host)) (after : After host (s.called host c) table t) :
    WellFormed slash (tree t.host) (next t.host) := by
  obtain ⟨same, le⟩ := after.files files
  rw [same]
  exact (files.wellFormed s.host c before).later le

theorem TreeHost.made (files : TreeHost host rootAbs tree next) {h : σ} {t : Table}
    {owner : Nat → Option Nat} {rel abs : Bytes} {c : Call} (fa : Faithful (tree h) (next h) t owner)
    (resolves : Resolves rootAbs (tree h) rel abs) (creates : Creates abs c) (granted : Granted host h c) :
    (∃ f, tree (host.after h c) rel = some f) ∧
      Faithful (tree (host.after h c)) (next (host.after h c)) t owner := by
  obtain ⟨there, same | ⟨path, file, absent, fresh, grown⟩⟩ :=
    files.creates h rel abs c resolves creates granted
  · rw [same] at there ⊢
    exact ⟨there, fa.later (files.grows h c)⟩
  · refine ⟨there, ?_⟩
    rw [grown]
    exact (fa.created absent fresh).later (files.grows h c)

theorem TreeHost.flat (files : TreeHost host rootAbs tree next) {oldAbs newAbs : Bytes}
    (wf : WellFormed slash (tree s.host) (next s.host))
    (renames : Renames host s request old new oldAbs newAbs isDir)
    (resolvesNew : Resolves rootAbs (tree (host.after s.host (.rename oldAbs newAbs))) new newAbs)
    (moved : tree (host.after s.host (.rename oldAbs newAbs)) new = tree s.host old)
    (plain : isDir = false) : ∀ path, Under slash old path → tree s.host path = none := by
  intro path under
  cases found : tree s.host path with
  | none => rfl
  | some f =>
    obtain ⟨d, atOld, isDirectory⟩ := wf.parents old path f under found
    have answer := renames.kind
    cases answered : (host.call (host.after s.host (.rename oldAbs newAbs)) (.lstat newAbs)).1 with
    | error e =>
      rw [answered] at answer
      exact nomatch plain.symm.trans answer
    | ok st =>
      rw [answered] at answer
      have known := (files.kind _ new newAbs st d resolvesNew answered (moved.trans atOld)).mpr isDirectory
      exact nomatch (plain.symm.trans answer).trans known

theorem Effect.recognized (files : TreeHost host rootAbs tree next) {t : State σ}
    {issued : List Nat} {owner : Nat → Option Nat} (effect : Effect host s request issued t)
    (re : Recognized rootAbs tree next s owner) (orderly : Orderly host tree s request)
    (order : request.order.Perm s.table.inodes.keys) :
    WellFormed slash (tree t.host) (next t.host) ∧
    (issued = [] ∧ Faithful (tree t.host) (next t.host) t.table owner ∨
    ∃ nodeid rel file, issued = [nodeid] ∧ request.path s = some rel ∧ tree t.host rel = some file ∧
      Faithful (tree t.host) (next t.host) t.table (Faithful.learn owner (refs s.log) nodeid file.id) ∧
      (refs s.log nodeid ≠ 0 → owner nodeid = some file.id)) := by
  cases effect with
  | still after =>
    obtain ⟨same, le⟩ := files.calmly after.calm
    rw [after.table, same]
    exact ⟨re.wf.later le, .inl ⟨rfl, re.faithful.later le⟩⟩
  | @looked _ rel abs names found after =>
    have path := names.path
    obtain ⟨parent, name, only, child⟩ := names
    have resolves := orderly.resolves re.inside (only ▸ List.mem_singleton.mpr rfl) child
    obtain ⟨file, there⟩ := files.seen s.host rel abs resolves found
    obtain ⟨same, le⟩ := after.files files
    have quiet := files.calm s.host (.lstat abs) nofun
    obtain ⟨bound, known⟩ := re.faithful.bound re.consistent re.wf child.named there
    refine ⟨after.wf files re.wf, .inr ⟨_, rel, file, rfl, path, ?_, ?_, known⟩⟩
    · rw [same, quiet, there]
    · rw [after.table, same, quiet]
      exact bound.later (Nat.le_trans (files.grows s.host (.lstat abs)) le)
  | @made _ rel abs c names creates granted after =>
    obtain ⟨parent, name, only, child⟩ := names
    have resolves := orderly.resolves re.inside (only ▸ List.mem_singleton.mpr rfl) child
    obtain ⟨-, grown⟩ := files.made re.faithful resolves creates granted
    obtain ⟨same, le⟩ := after.files files
    refine ⟨after.wf files re.wf, .inl ⟨rfl, ?_⟩⟩
    rw [after.table, same]
    exact grown.later le
  | @entered _ rel abs c names creates granted after =>
    have path := names.path
    obtain ⟨parent, name, only, child⟩ := names
    have resolves := orderly.resolves re.inside (only ▸ List.mem_singleton.mpr rfl) child
    obtain ⟨⟨file, there⟩, grown⟩ := files.made re.faithful resolves creates granted
    obtain ⟨same, le⟩ := after.files files
    obtain ⟨bound, known⟩ :=
      grown.bound re.consistent (files.wellFormed s.host c re.wf) child.named there
    refine ⟨after.wf files re.wf, .inr ⟨_, rel, file, rfl, path, ?_, ?_, known⟩⟩
    · rw [same, there]
    · rw [after.table, same]
      exact bound.later le
  | @removed _ rel abs c names removes granted after =>
    obtain ⟨parent, name, only, child⟩ := names
    have resolves := orderly.resolves re.inside (only ▸ List.mem_singleton.mpr rfl) child
    obtain ⟨same, le⟩ := after.files files
    refine ⟨after.wf files re.wf, .inl ⟨rfl, ?_⟩⟩
    rw [after.table, same, files.removes s.host rel abs c resolves removes granted]
    exact (re.faithful.removed rel).later (Nat.le_trans (files.grows s.host c) le)
  | @renamed _ old new oldAbs newAbs isDir table renames done after =>
    obtain ⟨p, q, oldName, newName, both, oldChild, newChild⟩ := renames.named
    have resolvesOld := orderly.resolves re.inside (both ▸ List.mem_cons_self) oldChild
    have resolvesNew := orderly.resolves re.inside
      (both ▸ List.mem_cons_of_mem _ (List.mem_singleton.mpr rfl)) newChild
    obtain ⟨same, le⟩ := after.files files
    have le' := Nat.le_trans (files.grows s.host (.rename oldAbs newAbs)) le
    have once : request.order.Nodup := order.nodup_iff.mpr s.table.inodes.keys_nodup
    have effect := files.renames s.host old new oldAbs newAbs re.wf resolvesOld resolvesNew renames.granted
    refine ⟨after.wf files re.wf, .inl ⟨rfl, ?_⟩⟩
    rw [after.table, same]
    by_cases equal : old = new
    · subst equal
      rw [if_pos rfl] at effect
      rw [effect]
      exact (re.faithful.renamed_self re.consistent once (orderly.undisturbed _ _ _ _ _ renames) done).later
        le'
    · rw [if_neg equal] at effect
      obtain ⟨apart, apart', vacant, moved⟩ := effect
      have all : ∀ nodeid, s.table.pathOf nodeid ≠ none → nodeid ∈ request.order := by
        intro nodeid lives
        apply order.mem_iff.mpr
        apply AList.lookup_isSome.mp
        cases looked : s.table.inodes.lookup nodeid with
        | none => exact absurd (by rw [Table.pathOf, Table.lookup, looked]; rfl) lives
        | some entry => rfl
      have moveNew : tree (host.after s.host (.rename oldAbs newAbs)) new = tree s.host old := by
        rw [moved, move_self]
      have direct : ∀ dir f, Under slash dir new →
          tree (host.after s.host (.rename oldAbs newAbs)) dir = some f → f.kind ≠ .symlink := by
        intro dir f under there
        rw [moved] at there
        rcases move_some there with ⟨s', cut, rfl, -⟩ | ⟨-, -, was⟩
        · exact absurd (under.trans_at ⟨s', rfl, cut⟩).length (Nat.lt_irrefl _)
        · exact resolvesNew.direct dir f under was
      have resolvesMoved : Resolves rootAbs (tree (host.after s.host (.rename oldAbs newAbs))) new newAbs :=
        ⟨resolvesNew.clean, resolvesNew.named, resolvesNew.built, direct⟩
      rw [moved]
      exact (re.faithful.renamed re.consistent renames.paths once all equal ⟨apart, apart'⟩ vacant
        (files.flat re.wf renames resolvesMoved moveNew) (orderly.covered _ _ _ _ _ renames)
        (orderly.undisturbed _ _ _ _ _ renames) done).later le'
  | renamedStale renames stale after => exact (re.consistent.rename_ne_none _ _ _ _ stale).elim
  | linked links => exact absurd links.op orderly.noLink
  | linkedOnly op => exact absurd op orderly.noLink
  | forgot =>
    obtain ⟨faithful, same⟩ := forgetAll_faithful request.forgets s re.consistent orderly.tidy.unpinned
      orderly.tidy.forgets re.faithful
    rw [same]
    exact ⟨re.wf, .inl ⟨rfl, faithful⟩⟩

/-- The kernel's view: no nodeid it holds was answered for another file, and each one whose
file still exists resolves to that file's path. -/
structure Identified (tree : σ → FileTree UInt8) (o : Observed σ) : Prop where
  clear : o.confused = false
  resolves : ∀ nodeid path f, nodeid ≠ 1 → refs o.mount.log nodeid ≠ 0 → o.owner nodeid = some f.id →
    tree o.mount.host path = some f → o.mount.table.pathOf nodeid = some path

/-- The invariant of a run, until a trap ends it. -/
def Watched (rootAbs : Bytes) (tree : σ → FileTree UInt8) (next : σ → Nat) (o : Observed σ) : Prop :=
  o.mount.trapped = false → Recognized rootAbs tree next o.mount o.owner ∧ o.confused = false

theorem Watched.identified {o : Observed σ} (watched : Watched rootAbs tree next o)
    (alive : o.mount.trapped = false) : Identified tree o := by
  obtain ⟨re, clear⟩ := watched alive
  refine ⟨clear, ?_⟩
  intro nodeid path f notRoot held known there
  have lives : o.mount.table.pathOf nodeid ≠ none := by
    intro dead
    exact held (re.consistent.dropped nodeid notRoot (Option.map_eq_none_iff.mp dead))
  exact (re.faithful.current nodeid path f notRoot lives known there).1

theorem step_watched (files : TreeHost host rootAbs tree next) (o : Observed σ) (request : Request)
    (p : Observed σ) (watched : Watched rootAbs tree next o) (orderly : Orderly host tree o.mount request)
    (moved : o.step host tree request = some p) : Watched rootAbs tree next p := by
  obtain ⟨t, mounted, rfl⟩ := Option.map_eq_some_iff.mp moved
  obtain ⟨re, clear⟩ := watched (step_alive host mounted)
  have order := step_order host mounted
  cases step_serve host mounted
  rcases serve_effect host o.mount request with ⟨reply, u, effect, served⟩ | trapped
  · have consistent : Consistent (o.mount.serve host request).table
        (refs (o.mount.serve host request).log) := by
      rw [served]
      change Consistent u.table (refs (u.log ++ [.reply reply]))
      rw [refs_reply]
      exact effect.consistent re.consistent orderly.tidy
    have inside := re.inside.serve host request
    obtain ⟨wf, known⟩ := effect.recognized files re orderly order
    rw [served] at consistent inside ⊢
    have answer : (u.note (.reply reply)).answer = reply.issued := by
      simp only [State.answer, State.note, List.getLast?_append, List.getLast?_singleton, Option.some_or]
    intro _
    rcases known with ⟨silent, faithful⟩ | ⟨nodeid, rel, file, issued, path, there, faithful, same⟩
    · have none_ : reply.issued = none := by
        cases issues : reply.issued with
        | none => rfl
        | some nodeid =>
          rw [issues] at silent
          exact nomatch silent
      have seen : o.see tree request (u.note (.reply reply)) =
        { o with mount := u.note (.reply reply) } := by
        simp only [Observed.see, answer, none_]
      rw [seen]
      exact ⟨⟨consistent, inside, wf, faithful⟩, clear⟩
    · have some_ : reply.issued = some nodeid := by
        cases issues : reply.issued with
        | none =>
          rw [issues] at issued
          exact nomatch issued
        | some other =>
          rw [issues] at issued
          exact congrArg some (List.cons.inj issued).1
      have fileId : (tree (u.note (.reply reply)).host rel).map File.id = some file.id := by
        rw [show (u.note (.reply reply)).host = u.host from rfl, there]
        rfl
      unfold Faithful.learn at faithful
      by_cases fresh : refs o.mount.log nodeid = 0
      · rw [if_pos fresh] at faithful
        have seen : o.see tree request (u.note (.reply reply)) = ⟨u.note (.reply reply),
            Function.update o.owner nodeid (some file.id), o.confused⟩ := by
          simp only [Observed.see, answer, some_, path, fileId, if_pos fresh]
        rw [seen]
        exact ⟨⟨consistent, inside, wf, faithful⟩, clear⟩
      · rw [if_neg fresh] at faithful
        have seen : o.see tree request (u.note (.reply reply)) =
            ⟨u.note (.reply reply), o.owner, o.confused⟩ := by
          simp only [Observed.see, answer, some_, path, fileId, if_neg fresh, same fresh,
            bne_self_eq_false, Bool.or_false]
        rw [seen]
        exact ⟨⟨consistent, inside, wf, faithful⟩, clear⟩
  · intro alive
    have mounted : (o.see tree request (o.mount.serve host request)).mount =
      o.mount.serve host request := by
      unfold Observed.see
      split
      · simp only
        split <;> rfl
      · rfl
    rw [mounted, trapped] at alive
    exact nomatch alive

theorem init_watched {h : σ} (modeRw : Bool) (wf : WellFormed slash (tree h) (next h)) :
    Watched rootAbs tree next { mount := State.init rootAbs modeRw h } := by
  intro alive
  refine ⟨⟨(init_settled rootAbs modeRw h alive).1, init_inside rootAbs modeRw h, wf, by rintro _ _ ⟨⟩, ?_, ?_⟩, rfl⟩
  · intro path nodeid named found
    obtain ⟨there, here, -⟩ := Option.map_eq_some_iff.mp found
    have missing : Table.init.pathIndex path = none := by
      simp only [Table.init, Function.update, dif_neg named]
    cases missing.symm.trans here
  · intro _ _ _ _ _ known
    cases known

theorem nodeid_keeps_identity (files : TreeHost host rootAbs tree next) {h : σ} (modeRw : Bool)
    (wf : WellFormed slash (tree h) (next h)) (requests : List Request) {o : Observed σ}
    (orderly : Run.Meets (Observed.step host tree) (fun p request => Orderly host tree p.mount request)
      { mount := State.init rootAbs modeRw h } requests)
    (run : Run.exec (Observed.step host tree) { mount := State.init rootAbs modeRw h } requests = some o)
    (alive : o.mount.trapped = false) : Identified tree o :=
  (Run.exec_guarded (step_watched files) requests (init_watched modeRw wf) orderly run).identified alive

end Steps

theorem orderly_flat {host : Host σ} {tree : σ → FileTree UInt8}
    (noLink : Op.ofCode (readInHeader request.frame).opcode ≠ .link) (unpinned : s.table.Unpinned)
    (forgets : ¬ s.table.FreesIn request.forgets)
    (names : ∀ child ∈ request.names, ∀ entry ∈ s.table.lookup child.1,
      slash ∉ joinRel entry.relPath child.2)
    (paths : ∀ nodeid ∈ s.table.inodes.keys, ∀ entry ∈ s.table.lookup nodeid, slash ∉ entry.relPath)
    (indexed : request.names.length = 2 → ∀ child ∈ request.names.head?,
      ∀ entry ∈ s.table.lookup child.1, s.table.at_ (joinRel entry.relPath child.2) ≠ none) :
    Orderly host tree s request where
  tidy := tidy_unless_link noLink unpinned forgets
  noLink := noLink
  direct := by
    rintro parent name entry dir f named found ⟨rest, whole, cut⟩ -
    obtain ⟨more, rfl⟩ := List.head?_eq_some_iff.mp cut
    exact absurd (by rw [whole]; simp) (names (parent, name) named entry found)
  covered := by
    intro old new oldAbs newAbs isDir renames absent
    obtain ⟨p, q, oldName, newName, both, oldChild, -⟩ := renames.named
    obtain ⟨entry, found, rfl⟩ := oldChild.found
    exact absurd absent (indexed (by rw [both]; rfl) (p, oldName) (by rw [both]; rfl) entry found)
  undisturbed := by
    rintro old new oldAbs newAbs isDir - - path nodeid ⟨rest, rfl, cut⟩ last
    have lives : ∀ order : List Nat, s.table.lastAt order (old ++ rest) = some nodeid →
        s.table.pathOf nodeid = some (old ++ rest) := by
      intro order
      induction order using List.reverseRecOn with
      | nil => exact nofun
      | append_singleton order other ih =>
        rw [Table.lastAt_snoc]
        split
        · rename_i here
          exact fun same => Option.some.inj same ▸ here
        · exact ih
    obtain ⟨entry, looked, own⟩ := Option.map_eq_some_iff.mp (lives request.order last)
    obtain ⟨more, rfl⟩ := List.head?_eq_some_iff.mp cut
    have live : nodeid ∈ s.table.inodes.keys := AList.lookup_isSome.mp
      (Option.isSome_iff_exists.mpr
        ⟨entry, (looked : s.table.inodes.lookup nodeid = some entry)⟩)
    exact absurd (by rw [own]; simp) (paths nodeid live entry looked)

/-- MKDIR of `d`, RENAME of it to `e`, LOOKUP of `e`. -/
def movedDirectory : List Request :=
  [.of 9 1 (Bytes.le 8 0 ++ [0x64, 0]) [1], .of 12 1 (Bytes.le 8 1 ++ [0x64, 0, 0x65, 0]) [1, 2],
    .of 1 1 [0x65, 0] [1, 2]]

theorem nodeid_keeps_identity_moved :
    ∃ o, Run.exec (Observed.step (MemFs.host [slash, 0x73]) MemFs.tree)
      { mount := State.init [slash, 0x73] true MemFs.empty } movedDirectory = some o ∧
      Identified MemFs.tree o := by
  have ran : (Run.exec (Observed.step (MemFs.host [slash, 0x73]) MemFs.tree)
      { mount := State.init [slash, 0x73] true MemFs.empty } movedDirectory).any
      (fun o => !o.mount.trapped) = true := by decide +kernel
  obtain ⟨o, run, alive⟩ := (Option.any_eq_true _ _).mp ran
  have flat : Run.Meets (Observed.step (MemFs.host [slash, 0x73]) MemFs.tree) (fun p request =>
      Op.ofCode (readInHeader request.frame).opcode ≠ .link ∧ p.mount.table.Unpinned ∧
      ¬ p.mount.table.FreesIn request.forgets ∧
      (∀ child ∈ request.names, ∀ entry ∈ p.mount.table.lookup child.1,
        slash ∉ joinRel entry.relPath child.2) ∧
      (∀ nodeid ∈ p.mount.table.inodes.keys, ∀ entry ∈ p.mount.table.lookup nodeid,
        slash ∉ entry.relPath) ∧
      (request.names.length = 2 → ∀ child ∈ request.names.head?,
        ∀ entry ∈ p.mount.table.lookup child.1, p.mount.table.at_ (joinRel entry.relPath child.2) ≠ none))
      { mount := State.init [slash, 0x73] true MemFs.empty } movedDirectory := by decide +kernel
  have orderly := flat.weaken fun p request simple =>
    (orderly_flat simple.1 simple.2.1 simple.2.2.1 simple.2.2.2.1 simple.2.2.2.2.1 simple.2.2.2.2.2 :
      Orderly (MemFs.host [slash, 0x73]) MemFs.tree p.mount request)
  exact ⟨o, run, nodeid_keeps_identity (MemFs.treeHost [slash, 0x73]) true MemFs.empty_wellFormed
    movedDirectory orderly run (by simpa using alive)⟩

/-- MKDIR of `d`, CREATE of `d/x`, UNLINK of it, CREATE of it again, RENAME of `d` to `e` with
the unlinked inode visited last, LOOKUP of `e/x`. -/
def recreatedInside : List Request :=
  [.of 9 1 (Bytes.le 8 0 ++ [0x64, 0]) [1], .of 35 2 (Bytes.le 8 0 ++ Bytes.le 8 0 ++ [0x78, 0]) [1, 2],
    .of 10 2 [0x78, 0] [1, 2, 3], .of 35 2 (Bytes.le 8 0 ++ Bytes.le 8 0 ++ [0x78, 0]) [1, 2, 3],
    .of 12 1 (Bytes.le 8 1 ++ [0x64, 0, 0x65, 0]) [1, 2, 4, 3], .of 1 2 [0x78, 0] [1, 2, 3, 4]]

theorem nodeid_given_for_another_file :
    ¬ ∀ requests o, (∀ request ∈ requests, Op.ofCode (readInHeader request.frame).opcode ≠ .link) →
      Run.exec (Observed.step (MemFs.host [slash, 0x73]) MemFs.tree)
        { mount := State.init [slash, 0x73] true MemFs.empty } requests = some o →
      o.mount.trapped = false → Identified MemFs.tree o := by
  intro identified
  have ran : (Run.exec (Observed.step (MemFs.host [slash, 0x73]) MemFs.tree)
      { mount := State.init [slash, 0x73] true MemFs.empty } recreatedInside).any
      (fun o => !o.mount.trapped && o.confused) = true := by decide +kernel
  obtain ⟨o, run, bad⟩ := (Option.any_eq_true _ _).mp ran
  obtain ⟨alive, confused⟩ := (Bool.and_eq_true _ _).mp bad
  have clear := (identified recreatedInside o (by decide +kernel) run (by simpa using alive)).clear
  rw [clear] at confused
  exact nomatch confused

end Machinen.Mount
