import Machinen.Mount.Effects

/-! Consistency of the inode table: the index finds live inodes under their own paths,
the root stays, nodeids are not issued twice, and lookup counts are what the kernel holds. -/
namespace Machinen.Mount

open Bytes Prog

/-- What one event does to the lookups that the kernel holds of a nodeid. -/
def recount (nodeid held : Nat) : Event → Nat
  | .call _ => held
  | .forget other n => if other = nodeid then held - n else held
  | .reply reply => if reply.issued = some nodeid then held + 1 else held

/-- The lookups the kernel holds: entry replies issued, minus the lookups forgotten. -/
def refs (log : List Event) (nodeid : Nat) : Nat := log.foldl (recount nodeid) 0

theorem refs_calls (log : List Event) (calls : List Call) :
    refs (log ++ calls.map Event.call) = refs log := by
  funext nodeid
  rw [refs, List.foldl_append]
  induction calls with
  | nil => rfl
  | cons c rest ih => exact ih

theorem refs_forget (log : List Event) (nodeid n : Nat) :
    refs (log ++ [.forget nodeid n]) = Function.update (refs log) nodeid (refs log nodeid - n) := by
  funext other
  rw [refs, List.foldl_append]
  by_cases here : other = nodeid
  · rw [here, Function.update_self]
    exact if_pos rfl
  · rw [Function.update_of_ne here]
    exact if_neg fun same => here same.symm

/-- One more lookup of each nodeid in the list, which has at most one. -/
def bump (held : Nat → Nat) : List Nat → Nat → Nat
  | [] => held
  | nodeid :: _ => Function.update held nodeid (held nodeid + 1)

theorem refs_reply (log : List Event) (reply : Reply) :
    refs (log ++ [.reply reply]) = bump (refs log) reply.issued.toList := by
  funext other
  rw [refs, List.foldl_append]
  change (if reply.issued = some other then refs log other + 1 else refs log other) = _
  cases issued : reply.issued with
  | none => rfl
  | some nodeid =>
    by_cases here : other = nodeid
    · subst here
      rw [if_pos rfl]
      exact (Function.update_self other _ (refs log)).symm
    · rw [if_neg fun same => here (Option.some.inj same).symm]
      exact (Function.update_of_ne here _ (refs log)).symm

/-- The table agrees with itself and with the lookups held. -/
structure Consistent (t : Table) (held : Nat → Nat) : Prop where
  indexed : ∀ path there, t.pathIndex path = some there →
    ∃ entry, t.lookup there.nodeid = some entry ∧ entry.relPath = path
  keys : ∀ path there, t.pathIndex path = some there →
    ∃ entry, t.lookup there.key = some entry ∧ entry.relPath = path
  intact : t.dangling = false
  root : t.lookup 1 = some ⟨[], nlookupPinned⟩
  rootIndexed : t.pathIndex [] = some ⟨1, 1⟩
  next : 1 < t.nextInode
  fresh : ∀ nodeid, t.nextInode ≤ nodeid → t.lookup nodeid = none
  counted : ∀ nodeid entry, nodeid ≠ 1 → t.lookup nodeid = some entry →
    entry.nlookup = held nodeid ∧ 0 < held nodeid
  dropped : ∀ nodeid, nodeid ≠ 1 → t.lookup nodeid = none → held nodeid = 0

/-- No lookup count but the root's has reached the value that pins an inode. -/
def Table.Unpinned (t : Table) : Prop :=
  ∀ nodeid entry, nodeid ≠ 1 → t.lookup nodeid = some entry → entry.nlookup < nlookupPinned

/-- Dropping the last lookups of the nodeid frees a path string that is the key of another
inode's entry in the index. -/
def Table.Frees (t : Table) (nodeid n : Nat) : Prop :=
  ∃ entry there, t.lookup nodeid = some entry ∧ entry.nlookup ≠ nlookupPinned ∧ entry.nlookup ≤ n ∧
    t.pathIndex entry.relPath = some there ∧ there.nodeid ≠ nodeid ∧ there.key = nodeid

/-- One of the records does so, after the ones before it. -/
def Table.FreesIn : Table → List (Nat × Nat) → Prop
  | _, [] => False
  | t, record :: rest => t.Frees record.1 record.2 ∨ (t.decrefInode record.1 record.2).FreesIn rest

/-- A LINK of the nodeid to the path leaves the index at the path the inode had, or frees
the key there. -/
def Table.Detaches (t : Table) (nodeid : Nat) (path : Bytes) : Prop :=
  ∃ entry there, t.lookup nodeid = some entry ∧ t.pathIndex entry.relPath = some there ∧
    (there.key = nodeid ∨ there.nodeid = nodeid ∧ entry.relPath ≠ path)

instance (t : Table) (nodeid n : Nat) : Decidable (t.Frees nodeid n) :=
  decidable_of_iff (∃ entry ∈ t.lookup nodeid, entry.nlookup ≠ nlookupPinned ∧ entry.nlookup ≤ n ∧
    ∃ there ∈ t.pathIndex entry.relPath, there.nodeid ≠ nodeid ∧ there.key = nodeid)
    (by simp only [Table.Frees, Option.mem_def, exists_and_left])

instance decidableFreesIn : (t : Table) → (records : List (Nat × Nat)) → Decidable (t.FreesIn records)
  | _, [] => isFalse id
  | t, record :: rest =>
    have := decidableFreesIn (t.decrefInode record.1 record.2) rest
    inferInstanceAs (Decidable (_ ∨ _))

variable {nodeid : Nat} {path old new : Bytes} {entry : InodeEntry} {table : Table} {host : Host σ}
  {s : State σ} {request : Request}

instance (t : Table) : Decidable t.Unpinned :=
  decidable_of_iff (∀ nodeid ∈ t.inodes.keys, nodeid ≠ 1 → ∀ entry ∈ t.lookup nodeid,
    entry.nlookup < nlookupPinned) (by
      constructor
      · intro each nodeid entry notRoot looked
        exact each nodeid (AList.lookup_isSome.mp (Option.isSome_iff_exists.mpr ⟨entry, looked⟩)) notRoot
          entry looked
      · exact fun unpinned nodeid _ notRoot entry looked => unpinned nodeid entry notRoot looked)

namespace Table

theorem freePath_same {t : Table} (free : t.keyed nodeid path = false) :
    t.freePath nodeid path = t := by
  simp only [freePath, free, Bool.or_false]

theorem keyed_unindexed {t : Table} (none_ : t.pathIndex path = none) :
    t.keyed nodeid path = false := by
  simp only [keyed, none_, Option.any_none]

theorem lookup_dropInode (t : Table) (nodeid : Nat) : (t.dropInode nodeid).lookup nodeid = none :=
  AList.lookup_erase _ _

theorem lookup_dropInode_ne (t : Table) {other : Nat} (apart : other ≠ nodeid) :
    (t.dropInode nodeid).lookup other = t.lookup other := AList.lookup_erase_ne apart

theorem putIndex_self (t : Table) (path : Bytes) (nodeid : Nat) :
    (t.putIndex path nodeid).pathIndex path = some {
      nodeid := nodeid
      key := match t.pathIndex path with
        | some there => there.key
        | none => nodeid } := Function.update_self ..

theorem putIndex_ne (t : Table) {other : Bytes} (apart : other ≠ path) (nodeid : Nat) :
    (t.putIndex path nodeid).pathIndex other = t.pathIndex other := Function.update_of_ne apart ..

theorem unindex_self (t : Table) (path : Bytes) : (t.unindex path).pathIndex path = none :=
  Function.update_self ..

theorem unindex_ne (t : Table) {other : Bytes} (apart : other ≠ path) :
    (t.unindex path).pathIndex other = t.pathIndex other := Function.update_of_ne apart ..

end Table

namespace Consistent

variable {t : Table} {held : Nat → Nat}

theorem unindex (ok : Consistent t held) (named : path ≠ []) :
    Consistent (t.unindex path) held where
  indexed := by
    intro other there found
    by_cases here : other = path
    · rw [here, Table.unindex_self] at found
      exact absurd found (by simp)
    · rw [Table.unindex_ne t here] at found
      exact ok.indexed other there found
  keys := by
    intro other there found
    by_cases here : other = path
    · rw [here, Table.unindex_self] at found
      exact absurd found (by simp)
    · rw [Table.unindex_ne t here] at found
      exact ok.keys other there found
  intact := ok.intact
  root := ok.root
  rootIndexed := by rw [Table.unindex_ne t (Ne.symm named), ok.rootIndexed]
  next := ok.next
  fresh := ok.fresh
  counted := ok.counted
  dropped := ok.dropped

theorem putIndex (ok : Consistent t held) (named : path ≠ []) (looked : t.lookup nodeid = some entry)
    (own : entry.relPath = path) : Consistent (t.putIndex path nodeid) held where
  indexed := by
    intro other there found
    by_cases here : other = path
    · subst here
      rw [Table.putIndex_self] at found
      cases Option.some.inj found
      exact ⟨entry, looked, own⟩
    · rw [Table.putIndex_ne t here] at found
      exact ok.indexed other there found
  keys := by
    intro other there found
    by_cases here : other = path
    · subst here
      rw [Table.putIndex_self] at found
      cases Option.some.inj found
      cases before : t.pathIndex other with
      | none => exact ⟨entry, looked, own⟩
      | some there => exact ok.keys other there before
    · rw [Table.putIndex_ne t here] at found
      exact ok.keys other there found
  intact := ok.intact
  root := ok.root
  rootIndexed := by rw [Table.putIndex_ne t (Ne.symm named), ok.rootIndexed]
  next := ok.next
  fresh := ok.fresh
  counted := ok.counted
  dropped := ok.dropped

theorem setInode (ok : Consistent t held) {n : Nat}
    (apart : nodeid ≠ 1) (known : nodeid < t.nextInode)
    (unmentioned : ∀ path there, t.pathIndex path = some there →
      there.nodeid = nodeid ∨ there.key = nodeid → entry.relPath = path)
    (count : entry.nlookup = n) (positive : 0 < n) :
    Consistent (t.setInode nodeid entry) (Function.update held nodeid n) where
  indexed := by
    intro path there found
    by_cases here : there.nodeid = nodeid
    · exact ⟨entry, here ▸ Table.lookup_setInode t nodeid entry, unmentioned path there found (.inl here)⟩
    · rw [Table.lookup_setInode_ne t here]
      exact ok.indexed path there found
  keys := by
    intro path there found
    by_cases here : there.key = nodeid
    · exact ⟨entry, here ▸ Table.lookup_setInode t nodeid entry, unmentioned path there found (.inr here)⟩
    · rw [Table.lookup_setInode_ne t here]
      exact ok.keys path there found
  intact := ok.intact
  root := by rw [Table.lookup_setInode_ne t (Ne.symm apart), ok.root]
  rootIndexed := ok.rootIndexed
  next := ok.next
  fresh := by
    intro other beyond
    have ne : other ≠ nodeid := by
      rintro rfl
      exact absurd known (Nat.not_lt.mpr beyond)
    rw [Table.lookup_setInode_ne t ne]
    exact ok.fresh other beyond
  counted := by
    intro other found notRoot looked
    by_cases here : other = nodeid
    · subst here
      rw [Table.lookup_setInode] at looked
      cases Option.some.inj looked
      rw [Function.update_self]
      exact ⟨count, positive⟩
    · rw [Table.lookup_setInode_ne t here] at looked
      rw [Function.update_of_ne here]
      exact ok.counted other found notRoot looked
  dropped := by
    intro other notRoot looked
    by_cases here : other = nodeid
    · subst here
      rw [Table.lookup_setInode] at looked
      exact absurd looked (by simp)
    · rw [Table.lookup_setInode_ne t here] at looked
      rw [Function.update_of_ne here]
      exact ok.dropped other notRoot looked

theorem congr (ok : Consistent t held) {held' : Nat → Nat} (same : ∀ nodeid, nodeid ≠ 1 →
    held' nodeid = held nodeid) : Consistent t held' :=
  { ok with
    counted := fun nodeid entry notRoot looked => by
      rw [same nodeid notRoot]
      exact ok.counted nodeid entry notRoot looked
    dropped := fun nodeid notRoot looked => by
      rw [same nodeid notRoot]
      exact ok.dropped nodeid notRoot looked }

theorem notRoot (ok : Consistent t held)
    (looked : t.lookup nodeid = some entry) (named : entry.relPath ≠ []) : nodeid ≠ 1 := by
  rintro rfl
  rw [ok.root] at looked
  exact named (Option.some.inj looked ▸ rfl)

theorem known (ok : Consistent t held)
    (looked : t.lookup nodeid = some entry) : nodeid < t.nextInode := by
  by_contra beyond
  rw [ok.fresh nodeid (Nat.not_lt.mp beyond)] at looked
  exact absurd looked (by simp)

theorem mentioned (ok : Consistent t held) {there : IndexEntry} (found : t.pathIndex path = some there)
    (looked : t.lookup nodeid = some entry)
    (mention : there.nodeid = nodeid ∨ there.key = nodeid) : entry.relPath = path := by
  rcases mention with rfl | rfl
  · obtain ⟨other, same, own⟩ := ok.indexed path there found
    cases Option.some.inj (looked.symm.trans same)
    exact own
  · obtain ⟨other, same, own⟩ := ok.keys path there found
    cases Option.some.inj (looked.symm.trans same)
    exact own

theorem insertNew (ok : Consistent t held) (named : path ≠ []) :
    Consistent (t.insertNew path) (bump held [t.nextInode]) := by
  have unknown := ok.fresh t.nextInode (Nat.le_refl _)
  have notRoot : t.nextInode ≠ 1 := Nat.ne_of_gt ok.next
  have grown : Consistent { t with nextInode := t.nextInode + 1 } held :=
    { ok with
      next := Nat.lt_succ_of_lt ok.next
      fresh := fun nodeid beyond => ok.fresh nodeid (Nat.le_of_succ_le beyond) }
  have unmentioned : ∀ other there, t.pathIndex other = some there →
      there.nodeid = t.nextInode ∨ there.key = t.nextInode → path = other := by
    rintro other there found (here | here)
    · obtain ⟨entry, looked, -⟩ := ok.indexed other there found
      rw [here, unknown] at looked
      exact absurd looked (by simp)
    · obtain ⟨entry, looked, -⟩ := ok.keys other there found
      rw [here, unknown] at looked
      exact absurd looked (by simp)
  have none_held : held t.nextInode = 0 := ok.dropped _ notRoot unknown
  have set : Consistent ({ t with nextInode := t.nextInode + 1 }.setInode t.nextInode ⟨path, 1⟩) _ :=
    grown.setInode notRoot (Nat.lt_succ_self _) unmentioned rfl Nat.one_pos
  rw [bump, none_held]
  exact set.putIndex named (Table.lookup_setInode _ _ _) rfl

theorem bindInode (ok : Consistent t held) (unpinned : t.Unpinned) (named : path ≠ []) :
    Consistent (t.bindInode path).2 (bump held [(t.bindInode path).1]) := by
  unfold Table.bindInode
  cases found : t.pathIndex path with
  | none => exact ok.insertNew named
  | some there =>
    obtain ⟨entry, looked, own⟩ := ok.indexed path there found
    have notRoot := ok.notRoot looked (own ▸ named)
    have count := (ok.counted _ entry notRoot looked).1
    simp only [looked, Table.countLookup, if_neg (Nat.ne_of_lt (unpinned _ entry notRoot looked))]
    refine ok.setInode notRoot (ok.known looked) ?_ (congrArg (· + 1) count) (Nat.succ_pos _)
    intro other there' found' mention
    have own' : entry.relPath = other := ok.mentioned found' looked mention
    exact own'

theorem dropInode (ok : Consistent t held) (notRoot : nodeid ≠ 1)
    (unmentioned : ∀ path there, t.pathIndex path = some there →
      there.nodeid ≠ nodeid ∧ there.key ≠ nodeid) :
    Consistent (t.dropInode nodeid) (Function.update held nodeid 0) where
  indexed := by
    intro path there found
    rw [Table.lookup_dropInode_ne t (unmentioned path there found).1]
    exact ok.indexed path there found
  keys := by
    intro path there found
    rw [Table.lookup_dropInode_ne t (unmentioned path there found).2]
    exact ok.keys path there found
  intact := ok.intact
  root := by rw [Table.lookup_dropInode_ne t (Ne.symm notRoot), ok.root]
  rootIndexed := ok.rootIndexed
  next := ok.next
  fresh := by
    intro other beyond
    by_cases here : other = nodeid
    · rw [here, Table.lookup_dropInode]
    · rw [Table.lookup_dropInode_ne t here, ok.fresh other beyond]
  counted := by
    intro other entry otherNotRoot looked
    have here : other ≠ nodeid := by
      rintro rfl
      rw [Table.lookup_dropInode] at looked
      exact absurd looked (by simp)
    rw [Table.lookup_dropInode_ne t here] at looked
    rw [Function.update_of_ne here]
    exact ok.counted other entry otherNotRoot looked
  dropped := by
    intro other otherNotRoot looked
    by_cases here : other = nodeid
    · rw [here, Function.update_self]
    · rw [Table.lookup_dropInode_ne t here] at looked
      rw [Function.update_of_ne here]
      exact ok.dropped other otherNotRoot looked

theorem forgetInode (ok : Consistent t held) {n : Nat} (notRoot : nodeid ≠ 1)
    (looked : t.lookup nodeid = some entry) (unpinned : entry.nlookup ≠ nlookupPinned)
    (all : entry.nlookup ≤ n) (keeps : ¬ t.Frees nodeid n) :
    Consistent (t.forgetInode nodeid entry) (Function.update held nodeid 0) := by
  have gone : ∀ u : Table, u.pathIndex entry.relPath = none → Consistent u held →
      (∀ nodeid, u.lookup nodeid = t.lookup nodeid) →
      Consistent ((u.dropInode nodeid).freePath nodeid entry.relPath) (Function.update held nodeid 0) := by
    intro u unindexed okU same
    have free : (u.dropInode nodeid).keyed nodeid entry.relPath = false :=
      Table.keyed_unindexed unindexed
    rw [Table.freePath_same free]
    apply okU.dropInode notRoot
    intro path there found
    have elsewhere : ¬ (there.nodeid = nodeid ∨ there.key = nodeid) := by
      intro mention
      have own := okU.mentioned found ((same nodeid).trans looked) mention
      rw [← own, unindexed] at found
      exact absurd found (by simp)
    exact not_or.mp elsewhere
  unfold Table.forgetInode
  cases found : t.pathIndex entry.relPath with
  | none => exact gone t found ok fun _ => rfl
  | some there =>
    by_cases own : there.nodeid = nodeid
    · simp only [if_pos own]
      have named : entry.relPath ≠ [] := by
        intro empty
        rw [empty, ok.rootIndexed] at found
        exact notRoot (own.symm.trans (Option.some.inj found ▸ rfl))
      exact gone _ (Table.unindex_self t _) (ok.unindex named) fun _ => rfl
    · simp only [if_neg own]
      have otherKey : there.key ≠ nodeid := fun key =>
        keeps ⟨entry, there, looked, unpinned, all, found, own, key⟩
      have free : (t.dropInode nodeid).keyed nodeid entry.relPath = false := by
        change Option.any _ (t.pathIndex entry.relPath) = false
        rw [found]
        exact beq_false_of_ne otherKey
      rw [Table.freePath_same free]
      apply ok.dropInode notRoot
      intro path there' found'
      have elsewhere : ¬ (there'.nodeid = nodeid ∨ there'.key = nodeid) := by
        intro mention
        have same := ok.mentioned found' looked mention
        rw [← same, found] at found'
        cases Option.some.inj found'
        exact mention.elim own otherKey
      exact not_or.mp elsewhere

theorem decrefInode (ok : Consistent t held) (unpinned : t.Unpinned) {n : Nat}
    (keeps : ¬ t.Frees nodeid n) :
    Consistent (t.decrefInode nodeid n) (Function.update held nodeid (held nodeid - n)) := by
  unfold Table.decrefInode
  cases looked : t.lookup nodeid with
  | none =>
    refine ok.congr fun other notRoot => ?_
    by_cases here : other = nodeid
    · rw [here, Function.update_self, ok.dropped nodeid (here ▸ notRoot) looked, Nat.zero_sub]
    · rw [Function.update_of_ne here]
  | some entry =>
    by_cases root : nodeid = 1
    · subst root
      have pinned : entry.nlookup = nlookupPinned := by
        rw [ok.root] at looked
        exact Option.some.inj looked ▸ rfl
      simp only [if_pos pinned]
      exact ok.congr fun other notRoot => Function.update_of_ne notRoot _ _
    · obtain ⟨count, -⟩ := ok.counted nodeid entry root looked
      simp only [if_neg (Nat.ne_of_lt (unpinned nodeid entry root looked))]
      split
      · rename_i all
        rw [← count, Nat.sub_eq_zero_of_le all]
        exact ok.forgetInode root looked (Nat.ne_of_lt (unpinned nodeid entry root looked)) all keeps
      · rename_i some_
        refine ok.setInode root (ok.known looked) ?_ (congrArg (· - n) count) ?_
        · intro path there found mention
          have own : entry.relPath = path := ok.mentioned found looked mention
          exact own
        · rw [← count]
          exact Nat.sub_pos_of_lt (Nat.not_le.mp some_)

end Consistent

theorem Table.Unpinned.decrefInode {t : Table} (unpinned : t.Unpinned) (nodeid n : Nat) :
    (t.decrefInode nodeid n).Unpinned := by
  unfold Table.decrefInode
  cases looked : t.lookup nodeid with
  | none => exact unpinned
  | some entry =>
    by_cases pinned : entry.nlookup = nlookupPinned
    · simp only [if_pos pinned]
      exact unpinned
    · simp only [if_neg pinned]
      split
      · intro other found notRoot there
        rw [Table.lookup, forgetInode_inodes] at there
        by_cases here : other = nodeid
        · rw [here, AList.lookup_erase] at there
          exact absurd there (by simp)
        · rw [AList.lookup_erase_ne here] at there
          exact unpinned other found notRoot there
      · intro other found notRoot there
        by_cases here : other = nodeid
        · rw [here, Table.lookup_setInode] at there
          rw [← Option.some.inj there]
          exact Nat.lt_of_le_of_lt (Nat.sub_le _ _) (unpinned nodeid entry (here ▸ notRoot) looked)
        · rw [Table.lookup_setInode_ne t here] at there
          exact unpinned other found notRoot there

namespace Consistent

variable {t : Table} {held : Nat → Nat}

theorem replaceInodeRelPath (ok : Consistent t held)
    (owned : ∀ entry, t.lookup nodeid = some entry → entry.relPath ≠ []) (named : path ≠ [])
    (done : t.replaceInodeRelPath nodeid path = some table) : Consistent table held := by
  obtain ⟨entry, looked, rfl⟩ := Option.map_eq_some_iff.mp done
  have hasPath := owned entry looked
  have notRoot := ok.notRoot looked hasPath
  obtain ⟨count, positive⟩ := ok.counted nodeid entry notRoot looked
  have okU := ok.unindex hasPath
  rw [Table.freePath_same (Table.keyed_unindexed (Table.unindex_self t entry.relPath))]
  have unmentioned : ∀ other there, (t.unindex entry.relPath).pathIndex other = some there →
      there.nodeid = nodeid ∨ there.key = nodeid → path = other := by
    intro other there found mention
    have own := okU.mentioned found looked mention
    rw [← own, Table.unindex_self] at found
    exact absurd found (by simp)
  have set : Consistent ((t.unindex entry.relPath).setInode nodeid { entry with relPath := path }) _ :=
    okU.setInode notRoot (ok.known looked) unmentioned count positive
  rw [Function.update_eq_self] at set
  exact set.putIndex named (Table.lookup_setInode _ _ _) rfl

theorem below_nonempty {suffix : Bytes} (named : old ≠ [])
    (under : Table.below old path = some suffix) : path ≠ [] := by
  rintro rfl
  unfold Table.below at under
  split at under
  · rename_i found
    exact named (List.prefix_nil.mp found.1)
  · exact absurd under (by simp)

theorem moveBelow (ok : Consistent t held) (named : old ≠ [] ∧ new ≠ [])
    (nodeid : Nat) : Consistent (Table.moveBelow old new t nodeid) held := by
  unfold Table.moveBelow
  cases looked : t.lookup nodeid with
  | none => exact ok
  | some entry =>
    cases under : Table.below old entry.relPath with
    | none =>
      simp only [under]
      exact ok
    | some suffix =>
      simp only [under]
      cases replaced : t.replaceInodeRelPath nodeid (new ++ suffix) with
      | none => exact ok
      | some table =>
        refine ok.replaceInodeRelPath ?_ (List.append_ne_nil_of_left_ne_nil named.2 suffix) replaced
        intro other same
        cases Option.some.inj (looked.symm.trans same)
        exact below_nonempty named.1 under

theorem rename (ok : Consistent t held) {isDir : Bool} {order : List Nat} (named : old ≠ [] ∧ new ≠ [])
    (done : t.updateBoundInodesAfterRename old new isDir order = some table) : Consistent table held := by
  have loop : ∀ (ids : List Nat) (u : Table), Consistent u held →
      Consistent (ids.foldl (Table.moveBelow old new) u) held := by
    intro ids
    induction ids with
    | nil => exact fun _ okU => okU
    | cons nodeid rest ih => exact fun u okU => ih _ (okU.moveBelow named nodeid)
  obtain ⟨u, moved, rfl⟩ := Option.map_eq_some_iff.mp done
  have okU : Consistent u held := by
    cases found : t.pathIndex old with
    | none =>
      rw [found] at moved
      exact Option.some.inj moved ▸ ok
    | some there =>
      rw [found] at moved
      refine ok.replaceInodeRelPath ?_ named.2 moved
      intro entry looked
      rw [ok.mentioned found looked (.inl rfl)]
      exact named.1
  split
  · exact loop order u okU
  · exact okU

theorem rename_ne_none (ok : Consistent t held) (old new : Bytes) (isDir : Bool) (order : List Nat) :
    t.updateBoundInodesAfterRename old new isDir order ≠ none := by
  intro stale
  have moved := Option.map_eq_none_iff.mp stale
  cases found : t.pathIndex old with
  | none =>
    rw [found] at moved
    exact absurd moved (by simp)
  | some there =>
    rw [found] at moved
    obtain ⟨entry, looked, -⟩ := ok.indexed old there found
    change (t.lookup there.nodeid).map _ = none at moved
    rw [looked] at moved
    exact absurd moved (by simp)

theorem retarget (ok : Consistent t held) (unpinned : t.Unpinned) (attached : ¬ t.Detaches nodeid path)
    (done : t.retarget nodeid path = some table) : Consistent table (bump held [nodeid]) := by
  obtain ⟨entry, looked, rfl⟩ := Option.map_eq_some_iff.mp done
  have otherKey : ∀ there, t.pathIndex entry.relPath = some there → there.key ≠ nodeid :=
    fun there found key => attached ⟨entry, there, looked, found, .inl key⟩
  have notRoot : nodeid ≠ 1 := by
    rintro rfl
    cases Option.some.inj (ok.root.symm.trans looked)
    exact otherKey _ ok.rootIndexed rfl
  obtain ⟨count, positive⟩ := ok.counted nodeid entry notRoot looked
  have free : t.keyed nodeid entry.relPath = false := by
    unfold Table.keyed
    cases found : t.pathIndex entry.relPath with
    | none => rfl
    | some there => exact beq_false_of_ne (otherKey there found)
  rw [Table.freePath_same free]
  have unmentioned : ∀ other there, t.pathIndex other = some there →
      there.nodeid = nodeid ∨ there.key = nodeid → path = other := by
    intro other there found mention
    have own := ok.mentioned found looked mention
    rw [← own] at found
    rcases mention with same | key
    · by_contra moved
      exact attached ⟨entry, there, looked, found, .inr ⟨same, fun stays => moved (stays ▸ own)⟩⟩
    · exact absurd key (otherKey there found)
  refine ok.setInode notRoot (ok.known looked) unmentioned ?_ (Nat.succ_pos _)
  have bounded := unpinned nodeid entry notRoot looked
  rw [count] at bounded
  simp only [count, if_neg (Nat.ne_of_lt bounded)]

end Consistent

/-- A request that no part of the table's bookkeeping gets wrong. -/
structure Tidy (host : Host σ) (s : State σ) (request : Request) : Prop where
  unpinned : s.table.Unpinned
  links : ∀ nodeid path, Links host s request nodeid path → ¬ s.table.Detaches nodeid path
  forgets : ¬ s.table.FreesIn request.forgets

theorem forgetAll_consistent (records : List (Nat × Nat)) : ∀ s : State σ,
    Consistent s.table (refs s.log) → s.table.Unpinned → ¬ s.table.FreesIn records →
    Consistent (s.forgetAll records).table (refs (s.forgetAll records).log) := by
  induction records with
  | nil => exact fun s ok _ _ => ok
  | cons record rest ih =>
    intro s ok unpinned keeps
    obtain ⟨now, later⟩ := not_or.mp keeps
    apply ih _ ?_ (unpinned.decrefInode _ _) later
    change Consistent (s.table.decrefInode record.1 record.2)
      (refs (s.log ++ [.forget record.1 record.2]))
    rw [refs_forget]
    exact ok.decrefInode unpinned now

theorem After.sameRefs {t : State σ} (after : After host s table t) :
    refs t.log = refs s.log := by
  obtain ⟨calls, log⟩ := after.calls
  rw [log, refs_calls]

theorem After.sameRefsCalled {t : State σ} {c : Call}
    (after : After host (s.called host c) table t) : refs t.log = refs s.log :=
  after.sameRefs.trans (refs_calls s.log [c])

theorem Child.named {parent : Nat} {name rel abs : Bytes}
    (child : Child s parent name rel abs) : rel ≠ [] := by
  obtain ⟨entry, -, rfl⟩ := child.found
  exact joinRel_nonempty child.valid

theorem Renames.paths {oldAbs newAbs : Bytes} {isDir : Bool}
    (renames : Renames host s request old new oldAbs newAbs isDir) : old ≠ [] ∧ new ≠ [] := by
  obtain ⟨p, q, oldName, newName, -, oldChild, newChild⟩ := renames.named
  exact ⟨oldChild.named, newChild.named⟩

theorem Effect.consistent {t : State σ} {issued : List Nat}
    (effect : Effect host s request issued t) (ok : Consistent s.table (refs s.log))
    (tidy : Tidy host s request) : Consistent t.table (bump (refs t.log) issued) := by
  cases effect with
  | still after =>
    rw [after.table, after.sameRefs]
    exact ok
  | looked names _ after =>
    obtain ⟨_, _, -, child⟩ := names
    rw [after.table, after.sameRefsCalled]
    exact ok.bindInode tidy.unpinned child.named
  | made _ _ _ after =>
    rw [after.table, after.sameRefsCalled]
    exact ok
  | entered names _ _ after =>
    obtain ⟨_, _, -, child⟩ := names
    rw [after.table, after.sameRefsCalled]
    exact ok.bindInode tidy.unpinned child.named
  | removed names _ _ after =>
    obtain ⟨_, _, -, child⟩ := names
    rw [after.table, after.sameRefsCalled]
    exact ok.unindex child.named
  | renamed renames done after =>
    rw [after.table, after.sameRefsCalled]
    exact ok.rename renames.paths done
  | renamedStale _ _ after =>
    rw [after.table, after.sameRefsCalled]
    exact ok
  | linked links done after =>
    rw [after.table, after.sameRefsCalled]
    exact ok.retarget tidy.unpinned (tidy.links _ _ links) done
  | linkedOnly _ after =>
    rw [after.table, after.sameRefsCalled]
    exact ok
  | forgot => exact forgetAll_consistent request.forgets s ok tidy.unpinned tidy.forgets

theorem bindInode_nextInode (t : Table) (path : Bytes) :
    t.nextInode ≤ (t.bindInode path).2.nextInode := by
  unfold Table.bindInode
  split
  · exact Nat.le_succ _
  · split
    · unfold Table.countLookup
      split
      · exact Nat.le_refl _
      · exact Nat.le_refl _
    · exact Nat.le_succ _

theorem replace_nextInode {t : Table}
    (done : t.replaceInodeRelPath nodeid path = some table) : table.nextInode = t.nextInode := by
  obtain ⟨entry, -, rfl⟩ := Option.map_eq_some_iff.mp done
  rfl

theorem moveBelow_nextInode (old new : Bytes) (t : Table) (nodeid : Nat) :
    (Table.moveBelow old new t nodeid).nextInode = t.nextInode := by
  unfold Table.moveBelow
  split
  · rfl
  · split
    · rfl
    · rename_i suffix _
      cases replaced : t.replaceInodeRelPath nodeid (new ++ suffix) with
      | none => rfl
      | some table => exact replace_nextInode replaced

theorem moveAll_nextInode (old new : Bytes) (ids : List Nat) : ∀ t : Table,
    (ids.foldl (Table.moveBelow old new) t).nextInode = t.nextInode := by
  induction ids with
  | nil => exact fun _ => rfl
  | cons nodeid rest ih => exact fun t => (ih _).trans (moveBelow_nextInode old new t nodeid)

theorem rename_nextInode {t : Table} {isDir : Bool} {order : List Nat}
    (done : t.updateBoundInodesAfterRename old new isDir order = some table) :
    table.nextInode = t.nextInode := by
  obtain ⟨u, moved, rfl⟩ := Option.map_eq_some_iff.mp done
  have same : u.nextInode = t.nextInode := by
    split at moved
    · exact replace_nextInode moved
    · exact Option.some.inj moved ▸ rfl
  split
  · exact (moveAll_nextInode old new order u).trans same
  · exact same

theorem decref_nextInode (t : Table) (nodeid n : Nat) :
    (t.decrefInode nodeid n).nextInode = t.nextInode := by
  unfold Table.decrefInode
  split
  · rfl
  · split
    · rfl
    split
    · unfold Table.forgetInode
      split
      · split <;> rfl
      · rfl
    · rfl

theorem forgetAll_nextInode (records : List (Nat × Nat)) : ∀ s : State σ,
    (s.forgetAll records).table.nextInode = s.table.nextInode := by
  induction records with
  | nil => exact fun _ => rfl
  | cons record rest ih => exact fun s => (ih _).trans (decref_nextInode s.table record.1 record.2)

theorem Effect.nextInode {t : State σ} {issued : List Nat}
    (effect : Effect host s request issued t) : s.table.nextInode ≤ t.table.nextInode := by
  cases effect with
  | looked _ _ after => exact after.table ▸ bindInode_nextInode _ _
  | entered _ _ _ after => exact after.table ▸ bindInode_nextInode _ _
  | renamed _ done after => exact after.table ▸ Nat.le_of_eq (rename_nextInode done).symm
  | linked _ done after =>
    obtain ⟨entry, -, rfl⟩ := Option.map_eq_some_iff.mp done
    exact after.table ▸ Nat.le_refl _
  | forgot => exact Nat.le_of_eq (forgetAll_nextInode _ s).symm
  | still after => exact after.table ▸ Nat.le_refl _
  | made _ _ _ after => exact after.table ▸ Nat.le_refl _
  | removed _ _ _ after => exact after.table ▸ Nat.le_refl _
  | renamedStale _ _ after => exact after.table ▸ Nat.le_refl _
  | linkedOnly _ after => exact after.table ▸ Nat.le_refl _

theorem Effect.replies {t : State σ} {issued : List Nat} (effect : Effect host s request issued t)
    (reply : Reply) (logged : Event.reply reply ∈ t.log) : Event.reply reply ∈ s.log := by
  have quiet : ∀ {b : State σ} {table : Table}, After host b table t → Event.reply reply ∈ b.log := by
    intro b table after
    obtain ⟨calls, log⟩ := after.calls
    rw [log] at logged
    rcases List.mem_append.mp logged with before | now
    · exact before
    · obtain ⟨c, -, same⟩ := List.mem_map.mp now
      exact nomatch same
  have called : ∀ {c : Call} {table : Table}, After host (s.called host c) table t →
      Event.reply reply ∈ s.log := by
    intro c table after
    rcases List.mem_append.mp (quiet after) with before | now
    · exact before
    · exact nomatch List.mem_singleton.mp now
  cases effect with
  | still after => exact quiet after
  | looked _ _ after => exact called after
  | made _ _ _ after => exact called after
  | entered _ _ _ after => exact called after
  | removed _ _ _ after => exact called after
  | renamed _ _ after => exact called after
  | renamedStale _ _ after => exact called after
  | linked _ _ after => exact called after
  | linkedOnly _ after => exact called after
  | forgot =>
    clear quiet called
    generalize request.forgets = records at logged
    induction records generalizing s with
    | nil => exact logged
    | cons record rest ih =>
      rcases List.mem_append.mp (ih logged) with before | now
      · exact before
      · exact nomatch List.mem_singleton.mp now

/-- What holds of the inode table between two requests. -/
structure Sound (s : State σ) : Prop where
  indexed : ∀ path there, s.table.pathIndex path = some there →
    ∃ entry, s.table.lookup there.nodeid = some entry ∧ entry.relPath = path
  intact : s.table.dangling = false
  root : s.table.lookup 1 = some ⟨[], nlookupPinned⟩
  next : ∀ reply nodeid, Event.reply reply ∈ s.log → reply.issued = some nodeid → nodeid < s.table.nextInode
  counted : ∀ nodeid entry, nodeid ≠ 1 → s.table.lookup nodeid = some entry →
    entry.nlookup = refs s.log nodeid ∧ 0 < refs s.log nodeid
  dropped : ∀ nodeid, nodeid ≠ 1 → s.table.lookup nodeid = none → refs s.log nodeid = 0

/-- A mount between two requests, unless a trap ended it. -/
def Settled (s : State σ) : Prop :=
  s.trapped = false → Consistent s.table (refs s.log) ∧
    ∀ reply nodeid, Event.reply reply ∈ s.log → reply.issued = some nodeid → nodeid < s.table.nextInode

theorem Settled.sound (settled : Settled s) (alive : s.trapped = false) : Sound s :=
  have ok := (settled alive).1
  ⟨ok.indexed, ok.intact, ok.root, (settled alive).2, ok.counted, ok.dropped⟩

theorem init_settled (rootAbs : Bytes) (modeRw : Bool) (h : σ) : Settled (State.init rootAbs modeRw h) := by
  have looked : ∀ nodeid entry, nodeid ≠ 1 → Table.init.lookup nodeid = some entry → False := by
    intro nodeid entry notRoot found
    rw [Table.lookup, Table.init, AList.lookup_insert_ne notRoot] at found
    exact absurd found (by simp)
  have mentions : ∀ path there, Table.init.pathIndex path = some there → path = [] ∧ there = ⟨1, 1⟩ := by
    intro path there found
    by_cases here : path = []
    · subst here
      exact ⟨rfl, (Option.some.inj found).symm⟩
    · have missing : Table.init.pathIndex path = none := by
        simp only [Table.init, Function.update, dif_neg here]
      rw [missing] at found
      exact absurd found (by simp)
  intro _
  refine ⟨?_, fun _ _ logged => absurd logged List.not_mem_nil⟩
  exact {
    indexed := by
      intro path there found
      obtain ⟨rfl, rfl⟩ := mentions path there found
      exact ⟨_, rfl, rfl⟩
    keys := by
      intro path there found
      obtain ⟨rfl, rfl⟩ := mentions path there found
      exact ⟨_, rfl, rfl⟩
    intact := rfl
    root := rfl
    rootIndexed := rfl
    next := Nat.one_lt_two
    fresh := by
      intro nodeid beyond
      cases found : Table.init.lookup nodeid with
      | none => exact found
      | some entry => exact (looked nodeid entry (Nat.ne_of_gt beyond) found).elim
    counted := fun nodeid entry notRoot found => (looked nodeid entry notRoot found).elim
    dropped := fun _ _ _ => rfl }

theorem step_settled (host : Host σ) (s : State σ) (request : Request) (t : State σ)
    (settled : Settled s) (tidy : Tidy host s request) (moved : s.step host request = some t) :
    Settled t := by
  obtain ⟨ok, issued⟩ := settled (step_alive host moved)
  rw [step_serve host moved]
  intro alive
  rcases serve_effect host s request with ⟨reply, u, effect, served⟩ | trapped
  · have okU := effect.consistent ok tidy
    rw [served]
    change Consistent u.table (refs (u.log ++ [.reply reply])) ∧ _
    rw [refs_reply]
    refine ⟨okU, ?_⟩
    intro other nodeid logged issues
    rcases List.mem_append.mp logged with before | now
    · exact Nat.lt_of_lt_of_le (issued other nodeid (effect.replies other before) issues) effect.nextInode
    · cases List.mem_singleton.mp now
      by_contra beyond
      have unknown := okU.fresh nodeid (Nat.not_lt.mp beyond)
      have notRoot : nodeid ≠ 1 := by
        rintro rfl
        rw [okU.root] at unknown
        exact absurd unknown (by simp)
      have zero := okU.dropped nodeid notRoot unknown
      rw [issues] at zero
      exact absurd ((Function.update_self nodeid _ (refs u.log)).symm.trans zero) (Nat.succ_ne_zero _)
  · rw [trapped] at alive
    exact absurd alive (by simp)

theorem inode_table_sound (host : Host σ) (rootAbs : Bytes) (modeRw : Bool) (h : σ)
    (requests : List Request) {t : State σ}
    (tidy : Run.Meets (State.step host) (Tidy host) (State.init rootAbs modeRw h) requests)
    (run : (State.init rootAbs modeRw h).exec host requests = some t) (alive : t.trapped = false) :
    Sound t :=
  (Run.exec_guarded (step_settled host) requests (init_settled rootAbs modeRw h) tidy run).sound alive

theorem tidy_unless_link (other : Op.ofCode (readInHeader request.frame).opcode ≠ .link)
    (unpinned : s.table.Unpinned) (forgets : ¬ s.table.FreesIn request.forgets) : Tidy host s request :=
  ⟨unpinned, fun _ _ links => absurd links.op other, forgets⟩

/-- A LOOKUP of `a`, and a FORGET of it. -/
theorem inode_table_sound_forgotten :
    ∃ t, (State.init [slash] true ()).exec Host.idle
      [.of 1 1 [0x61, 0] [1], .of 2 2 (Bytes.le 8 1) [1, 2]] = some t ∧ Sound t := by
  have ran : ((State.init [slash] true ()).exec Host.idle
      [.of 1 1 [0x61, 0] [1], .of 2 2 (Bytes.le 8 1) [1, 2]]).any (fun t => !t.trapped) = true := by
    decide +kernel
  obtain ⟨t, run, alive⟩ := (Option.any_eq_true _ _).mp ran
  have weak : Run.Meets (State.step Host.idle) (fun s request => s.table.Unpinned ∧
      ¬ s.table.FreesIn request.forgets ∧ Op.ofCode (readInHeader request.frame).opcode ≠ .link)
      (State.init [slash] true ()) [.of 1 1 [0x61, 0] [1], .of 2 2 (Bytes.le 8 1) [1, 2]] := by
    decide +kernel
  have tidy := weak.weaken fun s request clean =>
    (tidy_unless_link clean.2.2 clean.1 clean.2.1 : Tidy Host.idle s request)
  exact ⟨t, run, inode_table_sound Host.idle [slash] true () _ tidy run (by simpa using alive)⟩

/-- A LOOKUP of `a` and a LINK of it to `b`: the index still finds it under `a`. -/
theorem inode_table_unsound_after_link :
    ¬ ∀ requests t, (State.init [slash] true ()).exec Host.idle requests = some t → t.trapped = false →
      Sound t := by
  intro sound
  have ran : ((State.init [slash] true ()).exec Host.idle
      [.of 1 1 [0x61, 0] [1], .of 13 1 (Bytes.le 8 2 ++ [0x62, 0]) [1, 2]]).any (fun t => !t.trapped &&
        (t.table.pathIndex [0x61]).any fun there =>
          (t.table.lookup there.nodeid).any fun entry => entry.relPath != [0x61]) = true := by
    decide +kernel
  obtain ⟨t, run, broken⟩ := (Option.any_eq_true _ _).mp ran
  obtain ⟨alive, broken⟩ := (Bool.and_eq_true _ _).mp broken
  obtain ⟨there, found, elsewhere⟩ := (Option.any_eq_true _ _).mp broken
  obtain ⟨entry, looked, moved⟩ := (Option.any_eq_true _ _).mp elsewhere
  obtain ⟨other, same, own⟩ := (sound _ t run (by simpa using alive)).indexed _ there found
  cases Option.some.inj (looked.symm.trans same)
  exact absurd own (by simpa using moved)

end Machinen.Mount
