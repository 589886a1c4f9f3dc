import Machinen.Mount.FileTree

/-! A small file system that answers a live mount's calls as a POSIX host may: files have
no contents, directories are neither removed nor replaced, and no name is linked twice. -/
namespace Machinen.Mount

open Bytes Prog PathTree

structure MemFs where
  tree : FileTree UInt8
  next : Nat

namespace MemFs

/-- The path below the mount root that a host path names. -/
def relOf (rootAbs abs : Bytes) : Option Bytes :=
  if rootAbs ++ [slash] <+: abs then some (abs.drop (rootAbs.length + 1)) else none

/-- Every directory above the path is there. -/
def inside (fs : MemFs) (rel : Bytes) : Bool :=
  (List.range rel.length).all fun n =>
    (rel.drop n).head? != some slash || (fs.tree (rel.take n)).any fun d => d.kind == .dir

def add (fs : MemFs) (rel : Bytes) (kind : Kind) : Option MemFs :=
  if fs.tree rel = none ∧ fs.inside rel = true then
    some ⟨Function.update fs.tree rel (some ⟨fs.next, kind⟩), fs.next + 1⟩
  else none

def open_ (fs : MemFs) (rel : Bytes) (creates : Bool) : Option MemFs :=
  match fs.tree rel with
  | some f => if f.kind = .dir then none else some fs
  | none => if creates then fs.add rel .other else none

def remove (fs : MemFs) (rel : Bytes) : Option MemFs :=
  match fs.tree rel with
  | some f => if f.kind = .dir then none else some ⟨Function.update fs.tree rel none, fs.next⟩
  | none => none

def rename (fs : MemFs) (old new : Bytes) : Option MemFs :=
  if fs.tree old ≠ none ∧ fs.tree new = none ∧ ¬ AtOrUnder slash old new ∧ fs.inside new = true then
    some ⟨fs.tree.move slash old new, fs.next⟩
  else none

/-- The answer of a call that succeeds where the change is possible. -/
def answer {A : Type} (fs : MemFs) (changed : Option MemFs) (granted : A) (errno : Nat) :
    Except Nat A × MemFs :=
  match changed with
  | some after => (.ok granted, after)
  | none => (.error errno, fs)

def statOf (f : File) : Stat := { mode := if f.kind = .dir then 0o040000 else 0o100000 }

def host (rootAbs : Bytes) : Host MemFs where
  call fs c := match c with
    | .lstat abs => match (relOf rootAbs abs).bind fs.tree with
      | some f => (.ok (statOf f), fs)
      | none => (.error 2, fs)
    | .open_ abs flags _ =>
      fs.answer ((relOf rootAbs abs).bind fun rel => fs.open_ rel flags.creates) (3 : Nat) 2
    | .mkdir abs _ => fs.answer ((relOf rootAbs abs).bind fun rel => fs.add rel .dir) () 17
    | .symlink _ abs => fs.answer ((relOf rootAbs abs).bind fun rel => fs.add rel .symlink) () 17
    | .unlink abs => fs.answer ((relOf rootAbs abs).bind fs.remove) () 2
    | .rename old new => fs.answer ((relOf rootAbs old).bind fun o => (relOf rootAbs new).bind (fs.rename o)) () 2
    | .rmdir _ => (.error 39, fs)
    | .link _ _ => (.error 1, fs)
    | .fstat _ => (.ok ({ mode := 0o100000 } : Stat), fs)
    | .pwrite _ data _ => (.ok data.length, fs)
    | .pread _ _ _ | .readlink _ => (.ok ([] : Bytes), fs)
    | .listDir _ => (.ok ([] : List HostDirent), fs)
    | .close _ | .truncate _ _ | .ftruncate _ _ | .chmod _ _ | .fchmod _ _ => (.ok (), fs)

theorem relOf_built {rootAbs rel abs : Bytes} (named : rel ≠ [])
    (built : buildAbsPath rootAbs rel = some abs) : relOf rootAbs abs = some rel := by
  rw [buildAbsPath, if_neg named] at built
  split at built
  · cases built
  · cases Option.some.inj built
    have whole : rootAbs ++ slash :: rel = (rootAbs ++ [slash]) ++ rel := by simp
    rw [relOf, whole, if_pos (List.prefix_append _ _)]
    simp

theorem inside_iff (fs : MemFs) (rel : Bytes) : fs.inside rel = true ↔
    ∀ dir, Under slash dir rel → ∃ d, fs.tree dir = some d ∧ d.kind = .dir := by
  simp only [inside, List.all_eq_true, List.mem_range, Bool.or_eq_true, bne_iff_ne, ne_eq,
    Option.any_eq_true, beq_iff_eq]
  constructor
  · rintro each dir ⟨rest, rfl, cut⟩
    have shorter : dir.length < (dir ++ rest).length := Under.length ⟨rest, rfl, cut⟩
    rcases each dir.length shorter with apart | above
    · rw [List.drop_left] at apart
      exact absurd cut apart
    · rwa [List.take_left] at above
  · intro each n _
    by_cases cut : (rel.drop n).head? = some slash
    · exact .inr (each (rel.take n) ⟨rel.drop n, (List.take_append_drop n rel).symm, cut⟩)
    · exact .inl cut

section Changes

variable {fs after : MemFs} {rel old new : Bytes} {kind : Kind}

theorem add_spec (added : fs.add rel kind = some after) :
    fs.tree rel = none ∧ fs.inside rel = true ∧
      after = ⟨Function.update fs.tree rel (some ⟨fs.next, kind⟩), fs.next + 1⟩ := by
  unfold add at added
  split at added
  · rename_i can
    exact ⟨can.1, can.2, (Option.some.inj added).symm⟩
  · exact nomatch added

theorem remove_spec (removed : fs.remove rel = some after) :
    ∃ f, fs.tree rel = some f ∧ f.kind ≠ .dir ∧ after = ⟨Function.update fs.tree rel none, fs.next⟩ := by
  unfold remove at removed
  split at removed
  · rename_i f there
    split at removed
    · exact nomatch removed
    · exact ⟨f, there, ‹_›, (Option.some.inj removed).symm⟩
  · exact nomatch removed

theorem rename_spec (renamed : fs.rename old new = some after) :
    (∃ f, fs.tree old = some f) ∧ fs.tree new = none ∧ ¬ AtOrUnder slash old new ∧ fs.inside new = true ∧
      after = ⟨fs.tree.move slash old new, fs.next⟩ := by
  unfold rename at renamed
  split at renamed
  · rename_i can
    exact ⟨Option.ne_none_iff_exists'.mp can.1, can.2.1, can.2.2.1, can.2.2.2,
      (Option.some.inj renamed).symm⟩
  · exact nomatch renamed

theorem open_spec {creates : Bool} (opened : fs.open_ rel creates = some after) :
    after = fs ∧ (∃ f, fs.tree rel = some f) ∨ creates = true ∧ fs.add rel .other = some after := by
  unfold open_ at opened
  split at opened
  · rename_i f there
    split at opened
    · exact nomatch opened
    · exact .inl ⟨(Option.some.inj opened).symm, f, there⟩
  · split at opened
    · exact .inr ⟨‹_›, opened⟩
    · exact nomatch opened

/-- What every change keeps. -/
structure Keeps (fs after : MemFs) : Prop where
  wellFormed : WellFormed slash fs.tree fs.next → WellFormed slash after.tree after.next
  grows : fs.next ≤ after.next

theorem Keeps.same (fs : MemFs) : Keeps fs fs := ⟨id, Nat.le_refl _⟩

theorem add_keeps (added : fs.add rel kind = some after) : Keeps fs after := by
  obtain ⟨absent, above, rfl⟩ := add_spec added
  exact ⟨fun wf => wf.add absent (Nat.le_refl _) (Nat.lt_succ_self _) ((inside_iff fs rel).mp above),
    Nat.le_succ _⟩

theorem open_keeps {creates : Bool} (opened : fs.open_ rel creates = some after) : Keeps fs after := by
  rcases open_spec opened with ⟨rfl, -⟩ | ⟨-, added⟩
  · exact .same _
  · exact add_keeps added

theorem remove_keeps (removed : fs.remove rel = some after) : Keeps fs after := by
  obtain ⟨f, there, plain, rfl⟩ := remove_spec removed
  refine ⟨fun wf => wf.remove fun path under => ?_, Nat.le_refl _⟩
  cases found : fs.tree path with
  | none => rfl
  | some g =>
    obtain ⟨d, atRel, isDir⟩ := wf.parents rel path g under found
    cases Option.some.inj (there.symm.trans atRel)
    exact absurd isDir plain

theorem rename_keeps (renamed : fs.rename old new = some after) : Keeps fs after := by
  obtain ⟨⟨f, there⟩, free, apart, above, rfl⟩ := rename_spec renamed
  exact ⟨fun wf => wf.move there free apart ((inside_iff fs new).mp above), Nat.le_refl _⟩

theorem answer_keeps {A : Type} {changed : Option MemFs} (granted : A) (errno : Nat)
    (keeps : ∀ after, changed = some after → Keeps fs after) :
    Keeps fs (fs.answer changed granted errno).2 := by
  cases changed with
  | none => exact .same fs
  | some after => exact keeps after rfl

/-- A call is granted exactly where the change is possible. -/
theorem answer_granted {A : Type} {changed : Option MemFs} {granted a : A} {errno : Nat}
    (ok : (fs.answer changed granted errno).1 = .ok a) :
    changed = some (fs.answer changed granted errno).2 := by
  cases changed with
  | none => exact nomatch ok
  | some after => rfl

theorem answer_refused {A : Type} {changed : Option MemFs} {granted : A} {errno : Nat}
    (refused : ¬ ∃ a, (fs.answer changed granted errno).1 = .ok a) :
    (fs.answer changed granted errno).2 = fs := by
  cases changed with
  | none => rfl
  | some after => exact absurd ⟨granted, rfl⟩ refused

end Changes

theorem host_keeps (rootAbs : Bytes) (fs : MemFs) (c : Call) : Keeps fs ((host rootAbs).after fs c) := by
  have bound : ∀ {changed : Option Bytes} {f : Bytes → Option MemFs}, (∀ rel after, f rel = some after →
      Keeps fs after) → ∀ after, changed.bind f = some after → Keeps fs after := by
    intro changed f keeps after done
    obtain ⟨rel, -, made⟩ := Option.bind_eq_some_iff.mp done
    exact keeps rel after made
  cases c with
  | open_ abs flags mode => exact answer_keeps _ _ (bound fun _ _ => open_keeps)
  | mkdir abs mode => exact answer_keeps _ _ (bound fun _ _ => add_keeps)
  | symlink target abs => exact answer_keeps _ _ (bound fun _ _ => add_keeps)
  | unlink abs => exact answer_keeps _ _ (bound fun _ _ => remove_keeps)
  | rename old new =>
    exact answer_keeps _ _ (bound fun _ => bound fun _ _ => rename_keeps)
  | lstat abs =>
    change Keeps fs (match (relOf rootAbs abs).bind fs.tree with
      | some f => ((.ok (statOf f) : Except Nat Stat), fs)
      | none => (.error 2, fs)).2
    split <;> exact .same fs
  | _ => exact .same fs

theorem host_calm (rootAbs : Bytes) (fs : MemFs) (c : Call)
    (still : c.structural = true → ¬ Granted (host rootAbs) fs c) :
    ((host rootAbs).after fs c).tree = fs.tree := by
  cases c with
  | open_ abs flags mode =>
    cases creates : flags.creates with
    | true => exact congrArg MemFs.tree (answer_refused (still creates))
    | false =>
      change (fs.answer ((relOf rootAbs abs).bind fun rel => fs.open_ rel flags.creates)
        (3 : Nat) 2).2.tree = fs.tree
      rw [creates]
      cases done : (relOf rootAbs abs).bind fun rel => fs.open_ rel false with
      | none => rfl
      | some after =>
        obtain ⟨rel, -, opened⟩ := Option.bind_eq_some_iff.mp done
        rcases open_spec opened with ⟨rfl, -⟩ | ⟨impossible, -⟩
        · rfl
        · exact nomatch impossible
  | mkdir abs mode => exact congrArg MemFs.tree (answer_refused (still rfl))
  | symlink target abs => exact congrArg MemFs.tree (answer_refused (still rfl))
  | unlink abs => exact congrArg MemFs.tree (answer_refused (still rfl))
  | rename old new => exact congrArg MemFs.tree (answer_refused (still rfl))
  | lstat abs =>
    change (match (relOf rootAbs abs).bind fs.tree with
      | some f => ((.ok (statOf f) : Except Nat Stat), fs)
      | none => (.error 2, fs)).2.tree = fs.tree
    split <;> rfl
  | _ => rfl

theorem host_lstat {rootAbs rel abs : Bytes} {fs : MemFs} (resolves : Resolves rootAbs fs.tree rel abs) :
    (host rootAbs).call fs (.lstat abs) = match fs.tree rel with
      | some f => (.ok (statOf f), fs)
      | none => (.error 2, fs) := by
  change (match (relOf rootAbs abs).bind fs.tree with
    | some f => ((.ok (statOf f) : Except Nat Stat), fs)
    | none => (.error 2, fs)) = _
  rw [relOf_built resolves.named resolves.built, Option.bind_some]
  rfl

theorem statOf_isDir (f : File) : (statOf f).isDir = true ↔ f.kind = .dir := by
  cases kind : f.kind <;> simp only [statOf, kind] <;> decide

theorem treeHost (rootAbs : Bytes) : TreeHost (host rootAbs) rootAbs MemFs.tree MemFs.next where
  wellFormed := fun fs c => (host_keeps rootAbs fs c).wellFormed
  grows := fun fs c => (host_keeps rootAbs fs c).grows
  calm := host_calm rootAbs
  seen := by
    rintro fs rel abs resolves ⟨st, found⟩
    rw [host_lstat resolves] at found
    cases there : fs.tree rel with
    | none =>
      rw [there] at found
      exact nomatch found
    | some f => exact ⟨f, rfl⟩
  kind := by
    intro fs rel abs st f resolves answered there
    rw [host_lstat resolves, there] at answered
    cases Except.ok.inj answered
    exact statOf_isDir f
  creates := by
    rintro fs rel abs c resolves creates ⟨a, granted⟩
    have found := relOf_built resolves.named resolves.built
    have grown : ∀ kind after, fs.add rel kind = some after →
        (∃ f, after.tree rel = some f) ∧ (after.tree = fs.tree ∨ ∃ path file, fs.tree path = none ∧
          fs.next ≤ file.id ∧ after.tree = Function.update fs.tree path (some file)) := by
      intro kind after added
      obtain ⟨absent, -, rfl⟩ := add_spec added
      exact ⟨⟨_, Function.update_self ..⟩, .inr ⟨rel, _, absent, Nat.le_refl _, rfl⟩⟩
    cases creates with
    | file flags mode creating =>
      have opened : ((relOf rootAbs abs).bind fun rel => fs.open_ rel flags.creates) =
          some ((host rootAbs).after fs (.open_ abs flags mode)) := answer_granted granted
      rw [found, Option.bind_some] at opened
      rcases open_spec opened with ⟨same, there⟩ | ⟨-, added⟩
      · have sameTree := congrArg MemFs.tree same
        exact ⟨there.imp fun f at_ => (congrFun sameTree rel).trans at_, .inl sameTree⟩
      · exact grown _ _ added
    | dir mode =>
      have added : ((relOf rootAbs abs).bind fun rel => fs.add rel .dir) =
          some ((host rootAbs).after fs (.mkdir abs mode)) := answer_granted granted
      rw [found, Option.bind_some] at added
      exact grown _ _ added
    | symlink target =>
      have added : ((relOf rootAbs abs).bind fun rel => fs.add rel .symlink) =
          some ((host rootAbs).after fs (.symlink target abs)) := answer_granted granted
      rw [found, Option.bind_some] at added
      exact grown _ _ added
  removes := by
    rintro fs rel abs c resolves removes ⟨a, granted⟩
    cases removes with
    | file =>
      have removed : (relOf rootAbs abs).bind fs.remove =
          some ((host rootAbs).after fs (.unlink abs)) := answer_granted granted
      rw [relOf_built resolves.named resolves.built, Option.bind_some] at removed
      obtain ⟨f, -, -, same⟩ := remove_spec removed
      exact congrArg MemFs.tree same
    | dir => exact nomatch granted
  renames := by
    rintro fs old new oldAbs newAbs wf resolvesOld resolvesNew ⟨a, granted⟩
    have renamed : ((relOf rootAbs oldAbs).bind fun o => (relOf rootAbs newAbs).bind (fs.rename o)) =
        some ((host rootAbs).after fs (.rename oldAbs newAbs)) := answer_granted granted
    rw [relOf_built resolvesOld.named resolvesOld.built, Option.bind_some,
      relOf_built resolvesNew.named resolvesNew.built, Option.bind_some] at renamed
    obtain ⟨⟨f, there⟩, free, apart, above, same⟩ := rename_spec renamed
    have different : old ≠ new := by
      rintro rfl
      exact nomatch there.symm.trans free
    have absent : ∀ path, Under slash new path → fs.tree path = none := by
      intro path under
      cases found : fs.tree path with
      | none => rfl
      | some g =>
        obtain ⟨d, atNew, -⟩ := wf.parents new path g under found
        exact nomatch free.symm.trans atNew
    have apart' : ¬ AtOrUnder slash new old := by
      intro inNew
      rcases atOrUnder_iff.mp inNew with equal | under
      · exact different equal
      · exact nomatch (absent old under).symm.trans there
    rw [if_neg different]
    exact ⟨apart, apart', absent, congrArg MemFs.tree same⟩

/-- An empty directory below the mount root. -/
def empty : MemFs := ⟨fun _ => none, 0⟩

theorem empty_wellFormed : WellFormed slash empty.tree empty.next :=
  ⟨nofun, nofun, nofun⟩

end MemFs

end Machinen.Mount
