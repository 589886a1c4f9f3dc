import Machinen.Mount.FileTree
import Mathlib.Data.List.Induction

/-! What a RENAME of a directory does to the index: the inodes are visited in some order,
and the last one visited at a path takes the path's entry along. -/
namespace Machinen.Mount

variable {path old new : Bytes} {t : Table}

open Bytes PathTree

namespace Table

theorem below_iff {dir suffix : Bytes} :
    below dir path = some suffix ↔ path = dir ++ suffix ∧ suffix.head? = some slash := by
  unfold below
  constructor
  · intro found
    split at found
    · rename_i inside
      obtain ⟨⟨rest, rfl⟩, cut⟩ := inside
      rw [List.drop_left] at found cut
      cases Option.some.inj found
      exact ⟨rfl, cut⟩
    · exact nomatch found
  · rintro ⟨rfl, cut⟩
    rw [List.drop_left, if_pos ⟨List.prefix_append _ _, cut⟩]

theorem below_none {dir : Bytes} (outside : ¬ Under slash dir path) : below dir path = none := by
  cases found : below dir path with
  | none => rfl
  | some suffix =>
    obtain ⟨whole, cut⟩ := below_iff.mp found
    exact absurd ⟨suffix, whole, cut⟩ outside

def shift (old new path : Bytes) : Bytes :=
  match below old path with
  | some suffix => new ++ suffix
  | none => path

theorem shift_under {suffix : Bytes} (cut : suffix.head? = some slash) :
    shift old new (old ++ suffix) = new ++ suffix := by
  rw [shift, below_iff.mpr ⟨rfl, cut⟩]

theorem shift_outside (outside : ¬ Under slash old path) :
    shift old new path = path := by
  rw [shift, below_none outside]

def lastAt (t : Table) (order : List Nat) (path : Bytes) : Option Nat :=
  order.foldl (fun found nodeid => if t.pathOf nodeid = some path then some nodeid else found) none

theorem lastAt_snoc (t : Table) (order : List Nat) (nodeid : Nat) (path : Bytes) :
    t.lastAt (order ++ [nodeid]) path =
      if t.pathOf nodeid = some path then some nodeid else t.lastAt order path := by
  rw [lastAt, List.foldl_append]
  rfl

theorem lastAt_some (order : List Nat) {nodeid : Nat} (visited : nodeid ∈ order)
    (here : t.pathOf nodeid = some path) : (t.lastAt order path).isSome = true := by
  induction order using List.reverseRecOn with
  | nil => exact absurd visited List.not_mem_nil
  | append_singleton order other ih =>
    rw [lastAt_snoc]
    split
    · rfl
    · rename_i elsewhere
      rcases List.mem_append.mp visited with before | now
      · exact ih before
      · exact absurd (List.mem_singleton.mp now ▸ here) elsewhere

theorem lastAt_congr {u : Table} (same : ∀ nodeid, u.pathOf nodeid = some path ↔
    t.pathOf nodeid = some path) (order : List Nat) : u.lastAt order path = t.lastAt order path := by
  induction order using List.reverseRecOn with
  | nil => rfl
  | append_singleton order other ih => simp only [lastAt_snoc, ih, same other]

/-- At every path inside the directory, the inode visited last is the one the index has. -/
def Undisturbed (t : Table) (old : Bytes) (order : List Nat) : Prop :=
  ∀ path nodeid, Under slash old path → t.lastAt order path = some nodeid → t.at_ path = some nodeid

theorem moveBelow_outside {nodeid : Nat}
    (outside : ∀ path, t.pathOf nodeid = some path → ¬ Under slash old path) :
    moveBelow old new t nodeid = t := by
  unfold moveBelow
  cases looked : t.lookup nodeid with
  | none => rfl
  | some entry =>
    have lives : t.pathOf nodeid = some entry.relPath := by rw [pathOf, looked]; rfl
    simp only [below_none (outside _ lives)]

theorem moveBelow_inside {suffix : Bytes} {nodeid : Nat} (new : Bytes)
    (cut : suffix.head? = some slash) (inside : t.pathOf nodeid = some (old ++ suffix)) :
    (moveBelow old new t nodeid).pathOf = Function.update t.pathOf nodeid (some (new ++ suffix)) ∧
      (moveBelow old new t nodeid).at_ =
        Function.update (Function.update t.at_ (old ++ suffix) none) (new ++ suffix) (some nodeid) := by
  obtain ⟨entry, looked, own⟩ := Option.map_eq_some_iff.mp inside
  have under : below old entry.relPath = some suffix := below_iff.mpr ⟨own, cut⟩
  cases replaced : t.replaceInodeRelPath nodeid (new ++ suffix) with
  | none =>
    have missing := Option.map_eq_none_iff.mp replaced
    rw [looked] at missing
    exact nomatch missing
  | some table =>
    have moved : moveBelow old new t nodeid = table := by
      simp only [moveBelow, looked, under, replaced, Option.getD_some]
    rw [moved]
    exact replace_spec inside replaced

/-- The directories are the same one, or neither is inside the other. -/
def Apart (old new : Bytes) : Prop :=
  old ≠ new → ¬ AtOrUnder slash old new ∧ ¬ AtOrUnder slash new old

theorem Apart.suffixes {s t : Bytes} (apart : Apart old new) (cutS : s.head? = some slash)
    (cutT : t.head? = some slash) (same : new ++ s = old ++ t) : old = new ∧ s = t := by
  by_cases equal : old = new
  · subst equal
    exact ⟨rfl, List.append_cancel_left same⟩
  · have inNew : AtOrUnder slash new (new ++ s) := ⟨s, rfl, .inr cutS⟩
    have inOld : AtOrUnder slash old (new ++ s) := ⟨t, same, .inr cutT⟩
    exact ((atOrUnder_total inOld inNew).elim (apart equal).1 (apart equal).2).elim

/-- The table after the inodes of the list were visited. -/
structure Swept (old new : Bytes) (t : Table) (ids : List Nat) (r : Table) : Prop where
  paths : ∀ nodeid, r.pathOf nodeid =
    if nodeid ∈ ids then (t.pathOf nodeid).map (shift old new) else t.pathOf nodeid
  moved : ∀ s : Bytes, s.head? = some slash → r.at_ (new ++ s) =
    (t.lastAt ids (old ++ s)).or (t.at_ (new ++ s))
  emptied : old ≠ new → ∀ s : Bytes, s.head? = some slash → r.at_ (old ++ s) =
    if (t.lastAt ids (old ++ s)).isSome then none else t.at_ (old ++ s)
  others : ∀ path, ¬ Under slash new path → ¬ Under slash old path → r.at_ path = t.at_ path

theorem swept (apart : Apart old new) (t : Table) (ids : List Nat) (once : ids.Nodup) :
    Swept old new t ids (ids.foldl (moveBelow old new) t) := by
  induction ids using List.reverseRecOn with
  | nil => exact ⟨fun _ => rfl, fun _ _ => rfl, fun _ _ _ => rfl, fun _ _ _ => rfl⟩
  | append_singleton ids nodeid ih =>
    obtain ⟨onceIds, -, new_⟩ := List.nodup_append.mp once
    have unvisited : nodeid ∉ ids := fun visited =>
      new_ nodeid visited nodeid (List.mem_singleton.mpr rfl) rfl
    have sw := ih onceIds
    rw [List.foldl_append]
    change Swept old new t (ids ++ [nodeid]) (moveBelow old new (ids.foldl (moveBelow old new) t) nodeid)
    generalize ids.foldl (moveBelow old new) t = r at sw
    have own : r.pathOf nodeid = t.pathOf nodeid := by rw [sw.paths, if_neg unvisited]
    have listed : ∀ other, other ≠ nodeid → (other ∈ ids ++ [nodeid] ↔ other ∈ ids) := by
      intro other ne
      rw [List.mem_append, List.mem_singleton, or_iff_left ne]
    by_cases inside : ∃ s, s.head? = some slash ∧ t.pathOf nodeid = some (old ++ s)
    · obtain ⟨s, cut, here⟩ := inside
      obtain ⟨paths, index⟩ := moveBelow_inside new cut (own.trans here)
      refine ⟨?_, ?_, ?_, ?_⟩
      · intro other
        by_cases same : other = nodeid
        · subst same
          rw [paths, Function.update_self, if_pos (by simp), here, Option.map_some, shift_under cut]
        · rw [paths, Function.update_of_ne same, sw.paths]
          simp only [listed other same]
      · intro u cutU
        rw [index, lastAt_snoc, here]
        by_cases same : u = s
        · subst same
          rw [Function.update_self, if_pos rfl]
          rfl
        · have neNew : new ++ u ≠ new ++ s := fun eq => same (List.append_cancel_left eq)
          have neOld : new ++ u ≠ old ++ s := fun eq => same (apart.suffixes cutU cut eq).2
          have neSelf : some (old ++ s) ≠ some (old ++ u) := fun eq =>
            same (List.append_cancel_left (Option.some.inj eq)).symm
          rw [Function.update_of_ne neNew, Function.update_of_ne neOld, if_neg neSelf, sw.moved u cutU]
      · intro different u cutU
        rw [index, lastAt_snoc, here]
        have neNew : old ++ u ≠ new ++ s := fun eq => different (apart.suffixes cut cutU eq.symm).1
        rw [Function.update_of_ne neNew]
        by_cases same : u = s
        · subst same
          rw [Function.update_self, if_pos rfl]
          rfl
        · have neOld : old ++ u ≠ old ++ s := fun eq => same (List.append_cancel_left eq)
          have neSelf : some (old ++ s) ≠ some (old ++ u) := fun eq =>
            same (List.append_cancel_left (Option.some.inj eq)).symm
          rw [Function.update_of_ne neOld, if_neg neSelf, sw.emptied different u cutU]
      · intro path notNew notOld
        rw [index, Function.update_of_ne fun eq => notNew ⟨s, eq, cut⟩,
          Function.update_of_ne fun eq => notOld ⟨s, eq, cut⟩, sw.others path notNew notOld]
    · have outside : ∀ path, t.pathOf nodeid = some path → ¬ Under slash old path := by
        rintro path here ⟨s, rfl, cut⟩
        exact inside ⟨s, cut, here⟩
      rw [moveBelow_outside fun path here => outside path (own.symm.trans here)]
      have elsewhere : ∀ s : Bytes, s.head? = some slash →
          t.lastAt (ids ++ [nodeid]) (old ++ s) = t.lastAt ids (old ++ s) := by
        intro s cut
        rw [lastAt_snoc, if_neg fun here => inside ⟨s, cut, here⟩]
      refine ⟨?_, ?_, ?_, sw.others⟩
      · intro other
        by_cases same : other = nodeid
        · subst same
          rw [own, if_pos (by simp)]
          cases here : t.pathOf other with
          | none => rfl
          | some path => rw [Option.map_some, shift_outside (outside path here)]
        · rw [sw.paths]
          simp only [listed other same]
      · intro s cut
        rw [elsewhere s cut, sw.moved s cut]
      · intro different s cut
        rw [elsewhere s cut, sw.emptied different s cut]

end Table

end Machinen.Mount
