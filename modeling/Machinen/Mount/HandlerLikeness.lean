import Machinen.Mount.Likeness
import Machinen.Mount.Traps

/-! Every request handler runs in lockstep on two mounts that are alike: it answers both
with the same reply, and leaves them alike. -/
namespace Machinen.Mount

open Bytes Prog PathTree

/-- The calls that name a descriptor. -/
inductive FdCall where
  | fstat
  | close
  | pread (size offset : Nat)
  | pwrite (data : Bytes) (offset : Nat)
  | ftruncate (size : Nat)
  | fchmod (mode : Nat)

namespace FdCall

def on : FdCall → Nat → Call
  | .fstat, fd => .fstat fd
  | .close, fd => .close fd
  | .pread size offset, fd => .pread fd size offset
  | .pwrite data offset, fd => .pwrite fd data offset
  | .ftruncate size, fd => .ftruncate fd size
  | .fchmod mode, fd => .fchmod fd mode

def Answer : FdCall → Type
  | .fstat => Stat
  | .pread .. => Bytes
  | .pwrite .. => Nat
  | .close | .ftruncate _ | .fchmod _ => Unit

/-- What a call answers does not depend on the number of its descriptor. -/
def answer : (f : FdCall) → (fd : Nat) → Except Nat (f.on fd).Answer → Except Nat f.Answer
  | .fstat, _, a | .close, _, a | .pread .., _, a | .pwrite .., _, a | .ftruncate _, _, a | .fchmod _, _, a => a

end FdCall

/-- The calls that name files by their paths only and give no descriptor. -/
def Call.onPath : Call → Bool
  | .lstat _ | .readlink _ | .listDir _ | .mkdir .. | .symlink .. | .unlink _ | .rmdir _ | .link .. | .rename ..
  | .truncate .. | .chmod .. => true
  | _ => false

variable {σ : Type}

variable {fh fd gd : Nat} {f : HostFile} {c : Call} {entry : OpenEntry}

/-- A host whose descriptors stand for open files. What a call answers and what it does to the
files depends on the files and on what its descriptor is open on; an open gives a descriptor
that was free; and a descriptor stays open on its file until it is closed. -/
structure Host.Files (host : Host σ) (τ Obj : Type) where
  tree : σ → τ
  object : σ → Nat → Option Obj
  path : ∀ h k c, c.onPath = true → tree h = tree k →
    (host.call h c).1 = (host.call k c).1 ∧ tree (host.after h c) = tree (host.after k c)
  descriptor : ∀ h k (f : FdCall) fd gd o, tree h = tree k → object h fd = some o → object k gd = some o →
    f.answer fd (host.call h (f.on fd)).1 = f.answer gd (host.call k (f.on gd)).1 ∧
      tree (host.after h (f.on fd)) = tree (host.after k (f.on gd))
  opens : ∀ h k path flags mode, tree h = tree k →
    tree (host.after h (.open_ path flags mode)) = tree (host.after k (.open_ path flags mode)) ∧
    match (host.call h (.open_ path flags mode)).1, (host.call k (.open_ path flags mode)).1 with
    | .ok fd, .ok gd => ∃ o, object (host.after h (.open_ path flags mode)) fd = some o ∧
        object (host.after k (.open_ path flags mode)) gd = some o
    | .error e, .error d => e = d
    | _, _ => False
  free : ∀ h path flags mode (fd : Nat), (host.call h (.open_ path flags mode)).1 = .ok fd →
    object h fd = none
  stays : ∀ h c fd, c ≠ .close fd → object h fd ≠ none → object (host.after h c) fd = object h fd

section Alike

variable {host : Host σ} {τ Obj : Type} (files : host.Files τ Obj)

/-- Two entries of the handle tables: the same listing, or descriptors of one open file. -/
inductive Paired (here there : Nat → Option Obj) : Option OpenEntry → Option OpenEntry → Prop where
  | none : Paired here there none none
  | dir (nodeid : Nat) (entries : List Bytes) :
      Paired here there (some (.dir nodeid entries)) (some (.dir nodeid entries))
  | lost (nodeid openFlags : Nat) :
      Paired here there (some (.file none nodeid openFlags)) (some (.file none nodeid openFlags))
  | file (f g : HostFile) (nodeid openFlags : Nat) (o : Obj) (isHere : here f.fd = some o)
      (isThere : there g.fd = some o) :
      Paired here there (some (.file (some f) nodeid openFlags)) (some (.file (some g) nodeid openFlags))

/-- No two handles share a descriptor. -/
def State.Own (s : State σ) : Prop :=
  ∀ fh gh f g, s.hostFile fh = some f → s.hostFile gh = some g → f.fd = g.fd → fh = gh

/-- Two mounts over the same files that a guest cannot tell apart. -/
structure Alike (s r : State σ) : Prop where
  rootAbs : s.rootAbs = r.rootAbs
  modeRw : s.modeRw = r.modeRw
  table : s.table.Same r.table
  nextHandle : s.nextHandle = r.nextHandle
  tree : files.tree s.host = files.tree r.host
  handles : ∀ fh, Paired (files.object s.host) (files.object r.host) (s.handles.lookup fh)
    (r.handles.lookup fh)
  own : s.Own
  own' : r.Own

/-- The two descriptors are open on one file. -/
structure On (fd gd : Nat) (s r : State σ) : Prop where
  alike : Alike files s r
  object : ∃ o, files.object s.host fd = some o ∧ files.object r.host gd = some o

/-- And no handle has them yet. -/
structure Fresh (fd gd : Nat) (s r : State σ) : Prop extends On files fd gd s r where
  apart : ∀ fh f, s.hostFile fh = some f → f.fd ≠ fd
  apart' : ∀ fh f, r.hostFile fh = some f → f.fd ≠ gd

variable {files}

theorem Paired.keep {here there here' there' : Nat → Option Obj} {a b : Option OpenEntry}
    (paired : Paired here there a b)
    (kept : ∀ f nodeid flags, a = some (.file (some f) nodeid flags) → here' f.fd = here f.fd)
    (kept' : ∀ f nodeid flags, b = some (.file (some f) nodeid flags) → there' f.fd = there f.fd) :
    Paired here' there' a b := by
  cases paired with
  | none => exact .none
  | dir nodeid entries => exact .dir nodeid entries
  | lost nodeid flags => exact .lost nodeid flags
  | file f g nodeid flags o isHere isThere =>
    exact .file f g nodeid flags o ((kept f _ _ rfl).trans isHere) ((kept' g _ _ rfl).trans isThere)

theorem hostFile_of {s : State σ} {nodeid flags : Nat}
    (looked : s.handles.lookup fh = some (.file (some f) nodeid flags)) : s.hostFile fh = some f := by
  unfold State.hostFile
  rw [looked]

theorem hostFile_erase (s : State σ) {other : Nat}
    (found : (s.setHandles (s.handles.erase fh)).hostFile other = some f) :
    other ≠ fh ∧ s.hostFile other = some f := by
  unfold State.hostFile State.setHandles at found
  by_cases here : other = fh
  · rw [here, AList.lookup_erase] at found
    exact nomatch found
  · rw [AList.lookup_erase_ne here] at found
    exact ⟨here, found⟩

theorem State.Own.erase {s : State σ} (own : s.Own) (fh : Nat) :
    (s.setHandles (s.handles.erase fh)).Own := by
  intro a b f g atA atB same
  exact own a b f g (hostFile_erase s atA).2 (hostFile_erase s atB).2 same

namespace Alike

variable {s r : State σ}

theorem files_of (alike : Alike files s r) (fh : Nat) :
    Option.Rel (fun f g => ∃ o, files.object s.host f.fd = some o ∧ files.object r.host g.fd = some o)
      (s.hostFile fh) (r.hostFile fh) := by
  have paired := alike.handles fh
  unfold State.hostFile
  cases inS : s.handles.lookup fh <;> cases inR : r.handles.lookup fh <;> rw [inS, inR] at paired <;>
    cases paired
  case none.none.none => exact .none
  case some.some.dir => exact .none
  case some.some.lost => exact .none
  case some.some.file isHere isThere => exact .some ⟨_, isHere, isThere⟩

/-- A change of the host that leaves every descriptor of a handle open. -/
theorem rehost (alike : Alike files s r) {h k : σ} (trees : files.tree h = files.tree k)
    (kept : ∀ fh f, s.hostFile fh = some f → files.object h f.fd = files.object s.host f.fd)
    (kept' : ∀ fh f, r.hostFile fh = some f → files.object k f.fd = files.object r.host f.fd)
    (c d : Call) : Alike files ((s.note (.call c)).setHost h) ((r.note (.call d)).setHost k) where
  rootAbs := alike.rootAbs
  modeRw := alike.modeRw
  table := alike.table
  nextHandle := alike.nextHandle
  tree := trees
  handles fh := (alike.handles fh).keep (fun f _ _ looked => kept fh f (hostFile_of looked))
    fun f _ _ looked => kept' fh f (hostFile_of looked)
  own := alike.own
  own' := alike.own'

/-- The handle goes, and with it what its descriptor is open on. -/
theorem without (alike : Alike files s r) (fh : Nat) {h k : σ} (trees : files.tree h = files.tree k)
    (kept : ∀ other f, other ≠ fh → s.hostFile other = some f →
      files.object h f.fd = files.object s.host f.fd)
    (kept' : ∀ other f, other ≠ fh → r.hostFile other = some f →
      files.object k f.fd = files.object r.host f.fd)
    (log log' : List Event) :
    Alike files { s with handles := s.handles.erase fh, host := h, log := log }
      { r with handles := r.handles.erase fh, host := k, log := log' } where
  rootAbs := alike.rootAbs
  modeRw := alike.modeRw
  table := alike.table
  nextHandle := alike.nextHandle
  tree := trees
  handles := by
    intro other
    dsimp only
    by_cases here : other = fh
    · rw [here, AList.lookup_erase, AList.lookup_erase]
      exact .none
    · rw [AList.lookup_erase_ne here, AList.lookup_erase_ne here]
      exact (alike.handles other).keep (fun f _ _ looked => kept other f here (hostFile_of looked))
        fun f _ _ looked => kept' other f here (hostFile_of looked)
  own := alike.own.erase fh
  own' := alike.own'.erase fh

theorem opened (alike : Alike files s r) (found : s.hostFile fh = some f) :
    files.object s.host f.fd ≠ none := by
  have related := alike.files_of fh
  rw [found] at related
  cases other : r.hostFile fh <;> rw [other] at related
  · nomatch related
  · cases related with
    | some both =>
      obtain ⟨o, here, -⟩ := both
      rw [here]
      exact nofun

theorem opened' (alike : Alike files s r) (found : r.hostFile fh = some f) :
    files.object r.host f.fd ≠ none := by
  have related := alike.files_of fh
  rw [found] at related
  cases other : s.hostFile fh <;> rw [other] at related
  · nomatch related
  · cases related with
    | some both =>
      obtain ⟨o, -, there⟩ := both
      rw [there]
      exact nofun

theorem called (alike : Alike files s r) {d : Call}
    (trees : files.tree (host.after s.host c) = files.tree (host.after r.host d))
    (keeps : ∀ fh f, s.hostFile fh = some f → c ≠ .close f.fd)
    (keeps' : ∀ fh f, r.hostFile fh = some f → d ≠ .close f.fd) :
    Alike files (s.called host c) (r.called host d) :=
  alike.rehost trees (fun fh f found => files.stays _ _ _ (keeps fh f found) (alike.opened found))
    (fun fh f found => files.stays _ _ _ (keeps' fh f found) (alike.opened' found)) c d

theorem setTable (alike : Alike files s r) {t u : Table} (same : t.Same u) :
    Alike files (s.setTable t) (r.setTable u) :=
  ⟨alike.rootAbs, alike.modeRw, same, alike.nextHandle, alike.tree, alike.handles, alike.own, alike.own'⟩

theorem erase (alike : Alike files s r) (fh : Nat) :
    Alike files (s.setHandles (s.handles.erase fh)) (r.setHandles (r.handles.erase fh)) :=
  alike.without fh alike.tree (fun _ _ _ _ => rfl) (fun _ _ _ _ => rfl) s.log r.log

theorem release (alike : Alike files s r) {g : HostFile} (here : s.hostFile fh = some f)
    (there : r.hostFile fh = some g)
    (trees : files.tree (host.after s.host (.close f.fd)) = files.tree (host.after r.host (.close g.fd))) :
    Alike files ((s.called host (.close f.fd)).setHandles (s.handles.erase fh))
      ((r.called host (.close g.fd)).setHandles (r.handles.erase fh)) := by
  apply alike.without fh trees
  · intro other f' apart found
    apply files.stays _ _ _ _ (alike.opened found)
    exact fun same => apart (alike.own other fh f' f found here (Call.close.inj same).symm)
  · intro other g' apart found
    apply files.stays _ _ _ _ (alike.opened' found)
    exact fun same => apart (alike.own' other fh g' g found there (Call.close.inj same).symm)

end Alike

theorem On.called {s r : State σ} (on : On files fd gd s r) (f : FdCall)
    (open_ : f ≠ .close) : On files fd gd (s.called host (f.on fd)) (r.called host (f.on gd)) := by
  obtain ⟨o, here, there⟩ := on.object
  have keeps : ∀ fd c, f.on fd ≠ .close c := by
    intro fd c
    cases f with
    | close => exact absurd rfl open_
    | fstat | pread | pwrite | ftruncate | fchmod => exact nofun
  have trees := (files.descriptor _ _ f _ _ _ on.alike.tree here there).2
  refine ⟨on.alike.called trees (fun _ _ _ => keeps _ _) fun _ _ _ => keeps _ _, o, ?_, ?_⟩
  · exact (files.stays _ _ _ (keeps _ _) (by rw [here]; exact nofun)).trans here
  · exact (files.stays _ _ _ (keeps _ _) (by rw [there]; exact nofun)).trans there

theorem Fresh.closed {s r : State σ} (fresh : Fresh files fd gd s r) :
    Alike files (s.called host (.close fd)) (r.called host (.close gd)) := by
  obtain ⟨o, here, there⟩ := fresh.object
  apply fresh.alike.called (files.descriptor _ _ .close _ _ _ fresh.alike.tree here there).2
  · exact fun fh f found same => fresh.apart fh f found (Call.close.inj same).symm
  · exact fun fh f found same => fresh.apart' fh f found (Call.close.inj same).symm

theorem Fresh.called {s r : State σ} (fresh : Fresh files fd gd s r) (f : FdCall)
    (open_ : f ≠ .close) : Fresh files fd gd (s.called host (f.on fd)) (r.called host (f.on gd)) :=
  ⟨fresh.toOn.called f open_, fresh.apart, fresh.apart'⟩

theorem Fresh.setTable {s r : State σ} (fresh : Fresh files fd gd s r) {t u : Table}
    (same : t.Same u) : Fresh files fd gd (s.setTable t) (r.setTable u) :=
  ⟨⟨fresh.alike.setTable same, fresh.object⟩, fresh.apart, fresh.apart'⟩

/-- An open that both hosts grant gives descriptors of one file that no handle has. -/
theorem Alike.gained {s r : State σ} (alike : Alike files s r) (path : Bytes) (flags : HostFlags)
    (mode : Nat) (here : (host.call s.host (.open_ path flags mode)).1 = .ok fd)
    (there : (host.call r.host (.open_ path flags mode)).1 = .ok gd) :
    Fresh files fd gd (s.called host (.open_ path flags mode))
      (r.called host (.open_ path flags mode)) := by
  obtain ⟨trees, answers⟩ := files.opens s.host r.host path flags mode alike.tree
  rw [here, there] at answers
  obtain ⟨o, isHere, isThere⟩ := answers
  refine ⟨⟨alike.called trees (fun _ _ _ => nofun) fun _ _ _ => nofun, o, isHere, isThere⟩, ?_, ?_⟩
  · intro fh f found same
    exact alike.opened found (same ▸ files.free _ _ _ _ _ here)
  · intro fh f found same
    exact alike.opened' found (same ▸ files.free _ _ _ _ _ there)

theorem hostFile_put {s : State σ} (found : (s.putHandle entry).hostFile fh = some f) :
    (fh = s.nextHandle ∧ ∃ nodeid flags, entry = .file (some f) nodeid flags) ∨
      (fh ≠ s.nextHandle ∧ s.hostFile fh = some f) := by
  unfold State.hostFile State.putHandle at found
  by_cases here : fh = s.nextHandle
  · left
    rw [here, AList.lookup_insert] at found
    cases entry with
    | file file nodeid flags =>
      cases file with
      | some file => exact ⟨here, nodeid, flags, by rw [Option.some.inj found]⟩
      | none => cases found
    | dir => cases found
  · right
    rw [AList.lookup_insert_ne here] at found
    exact ⟨here, found⟩

theorem State.Own.put {s : State σ} (own : s.Own)
    (apart : ∀ f nodeid flags, entry = .file (some f) nodeid flags → ∀ fh g,
    s.hostFile fh = some g → g.fd ≠ f.fd) : (s.putHandle entry).Own := by
  intro a b f g atA atB same
  rcases hostFile_put atA with ⟨newA, nodeid, flags, isA⟩ | ⟨_, foundA⟩ <;>
    rcases hostFile_put atB with ⟨newB, nodeid', flags', isB⟩ | ⟨_, foundB⟩
  · exact newA.trans newB.symm
  · exact absurd same.symm (apart f nodeid flags isA b g foundB)
  · exact absurd same (apart g nodeid' flags' isB a f foundA)
  · exact own a b f g foundA foundB same

theorem Alike.put {s r : State σ} (alike : Alike files s r) {other : OpenEntry}
    (paired : Paired (files.object s.host) (files.object r.host) (some entry) (some other))
    (apart : ∀ f nodeid flags, entry = .file (some f) nodeid flags → ∀ fh g,
    s.hostFile fh = some g → g.fd ≠ f.fd)
    (apart' : ∀ f nodeid flags, other = .file (some f) nodeid flags → ∀ fh g,
    r.hostFile fh = some g → g.fd ≠ f.fd) : Alike files (s.putHandle entry) (r.putHandle other) where
  rootAbs := alike.rootAbs
  modeRw := alike.modeRw
  table := alike.table
  nextHandle := congrArg (· + 1) alike.nextHandle
  tree := alike.tree
  handles := by
    intro fh
    unfold State.putHandle
    dsimp only
    rw [← alike.nextHandle]
    by_cases here : fh = s.nextHandle
    · rw [here, AList.lookup_insert, AList.lookup_insert]
      exact paired
    · rw [AList.lookup_insert_ne here, AList.lookup_insert_ne here]
      exact alike.handles fh
  own := alike.own.put apart
  own' := alike.own'.put apart'

theorem Fresh.put {s r : State σ} (fresh : Fresh files fd gd s r) (flags : HostFlags)
    (nodeid openFlags : Nat) : Alike files (s.putHandle (.file (some ⟨fd, flags⟩) nodeid openFlags))
      (r.putHandle (.file (some ⟨gd, flags⟩) nodeid openFlags)) := by
  obtain ⟨o, here, there⟩ := fresh.object
  apply fresh.alike.put (.file ⟨fd, flags⟩ ⟨gd, flags⟩ nodeid openFlags o here there)
  · rintro f n fl same fh g found
    cases same
    exact fresh.apart fh g found
  · rintro f n fl same fh g found
    cases same
    exact fresh.apart' fh g found

end Alike

section Lockstep

variable {host : Host σ} {τ Obj : Type} {files : host.Files τ Obj} {A : Type}

/-- Both handlers end with an error and alike, or both processes stop. -/
def Stopped (files : host.Files τ Obj) : Exit → State σ → State σ → Prop
  | .error _, s, r => Alike files s r
  | .trap, _, _ => True

/-- The program runs in lockstep on mounts that are alike. -/
def Even (files : host.Files τ Obj) (m n : Handler σ A) : Prop :=
  Lockstep (Alike files) m n (fun a b s r => a = b ∧ Alike files s r) (Stopped files)

namespace Even

variable {B : Type}

theorem ret (a : A) : Even files (pure a) (pure a) := Lockstep.ret fun _ _ alike => ⟨rfl, alike⟩

theorem exit (errno : Errno) : Even files (fail errno : Handler σ A) (fail errno) :=
  Lockstep.exit fun _ _ alike => alike

theorem andThen {m n : Handler σ A} {f g : A → Handler σ B} (first : Even files m n)
    (rest : ∀ a, Even files (f a) (g a)) : Even files (m >>= f) (n >>= g) := by
  apply Lockstep.learn first
  rintro a _ rfl
  exact rest a

theorem agree {condition other : Prop} [Decidable condition] [Decidable other] (same : condition ↔ other)
    (e : Exit) : Even files (ensure condition e) (ensure other e) := by
  apply Lockstep.check same (fun _ _ _ alike => ⟨rfl, alike⟩)
  intro _ s r alike
  cases e with
  | error errno => exact alike
  | trap => trivial

theorem check (condition : Prop) [Decidable condition] (e : Exit) :
    Even files (ensure condition e) (ensure condition e) := agree Iff.rfl e

theorem found (value : Option A) (e : Exit) : Even files (need value e) (need value e) := by
  cases value with
  | some a => exact ret a
  | none =>
    apply Lockstep.exit
    intro s r alike
    cases e with
    | error errno => exact alike
    | trap => trivial

theorem look {m n : State σ → Handler σ A} (rest : ∀ s r, Alike files s r → Even files (m s) (n r)) :
    Even files (read >>= m) (read >>= n) := by
  apply Lockstep.learn (F := Alike files) (M := Alike files) (Lockstep.get fun _ _ alike => ⟨alike, alike⟩)
  exact rest

theorem branch {condition : Prop} [Decidable condition] {m k n l : Handler σ A} (yes : Even files m n)
    (no : Even files k l) : Even files (if condition then m else k) (if condition then n else l) :=
  Lockstep.branch (fun _ => yes) fun _ => no

theorem absPath (rel : Bytes) : Even files (absPath rel) (absPath rel) := by
  apply look
  intro s r alike
  rw [alike.rootAbs]
  exact found _ _

theorem requireInode (nodeid : Nat) : Even files (requireInode nodeid) (requireInode nodeid) := by
  apply look
  intro s r alike
  rw [alike.table.lookup]
  exact found _ _

theorem requireWritable : Even files (requireWritable (σ := σ)) requireWritable := by
  apply look
  intro s r alike
  exact agree (by rw [alike.modeRw]) _

theorem inodePath (nodeid : Nat) : Even files (inodePath nodeid) (inodePath nodeid) :=
  (requireInode nodeid).andThen fun entry => absPath entry.relPath

theorem childPath (parent : Nat) (name : Bytes) :
    Even files (childPath parent name) (childPath parent name) := by
  apply (check _ _).andThen
  intro _
  apply (requireInode parent).andThen
  intro entry
  exact (absPath _).andThen fun _ => ret _

theorem bindInode (path : Bytes) : Even files (bindInode path) (bindInode path) := by
  apply look
  intro s r alike
  obtain ⟨nodeid, same⟩ := alike.table.bindInode path
  dsimp only
  rw [nodeid, same.nextInode]
  apply (check _ _).andThen
  intro _
  apply andThen
  · exact Lockstep.set _ _ fun _ _ now => ⟨rfl, now.setTable same⟩
  · exact fun _ => ret _

theorem attempt (onPath : c.onPath = true) : Even files (attempt host c) (attempt host c) := by
  intro s r alike
  obtain ⟨answers, trees⟩ := files.path s.host r.host c onPath alike.tree
  have keeps : ∀ fd, c ≠ .close fd := by
    rintro fd rfl
    exact nomatch onPath
  exact ⟨answers, alike.called trees (fun _ _ _ => keeps _) fun _ _ _ => keeps _⟩

theorem sys (onPath : c.onPath = true) : Even files (sys host c) (sys host c) := by
  apply (attempt onPath).andThen
  intro answer
  cases answer with
  | ok a => exact ret a
  | error errno => exact exit _

theorem attrOf (st : Stat) (nodeid : Nat) : Even files (attrOf st nodeid) (attrOf st nodeid) := found _ _

theorem entryReply (st : Stat) (rel : Bytes) : Even files
    (do
      let nodeid ← Mount.bindInode rel
      let attr ← Mount.attrOf st nodeid
      pure (Reply.entry attr))
    (do
      let nodeid ← Mount.bindInode rel
      let attr ← Mount.attrOf st nodeid
      pure (Reply.entry attr)) := by
  apply (bindInode rel).andThen
  intro nodeid
  exact (attrOf st nodeid).andThen fun attr => ret _

theorem onLookup (parent : Nat) (body : Bytes) :
    Even files (onLookup host parent body) (onLookup host parent body) := by
  apply (childPath _ _).andThen
  rintro ⟨rel, abs⟩
  apply (sys (c := .lstat abs) rfl).andThen
  exact fun st => entryReply st rel

theorem onMkdir (parent : Nat) (body : Bytes) :
    Even files (onMkdir host parent body) (onMkdir host parent body) := by
  apply requireWritable.andThen
  intro _
  apply (check _ _).andThen
  intro _
  apply (childPath _ _).andThen
  rintro ⟨rel, abs⟩
  apply (sys rfl).andThen
  intro _
  apply (sys (c := .lstat abs) rfl).andThen
  exact fun st => entryReply st rel

theorem onSymlink (parent : Nat) (body : Bytes) :
    Even files (onSymlink host parent body) (onSymlink host parent body) := by
  apply requireWritable.andThen
  intro _
  apply (found _ _).andThen
  rintro ⟨name, target⟩
  apply (check _ _).andThen
  intro _
  apply (check _ _).andThen
  intro _
  apply (childPath _ _).andThen
  rintro ⟨rel, abs⟩
  apply (check _ _).andThen
  intro _
  apply (sys rfl).andThen
  intro _
  apply (sys (c := .lstat abs) rfl).andThen
  exact fun st => entryReply st rel

theorem attrReply (st : Stat) (nodeid : Nat) : Even files
    (do
      let attr ← Mount.attrOf st nodeid
      pure (Reply.attr attr))
    (do
      let attr ← Mount.attrOf st nodeid
      pure (Reply.attr attr)) := (attrOf st nodeid).andThen fun _ => ret _

theorem onGetattr (nodeid : Nat) : Even files (onGetattr host nodeid) (onGetattr host nodeid) := by
  apply (inodePath _).andThen
  intro abs
  apply (sys (c := .lstat abs) rfl).andThen
  exact fun st => attrReply st nodeid

theorem onReadlink (nodeid : Nat) : Even files (onReadlink host nodeid) (onReadlink host nodeid) := by
  apply (inodePath _).andThen
  intro abs
  apply (sys (c := .readlink abs) rfl).andThen
  exact fun _ => ret _

theorem onInit (body : Bytes) : Even files (onInit (σ := σ) body) (onInit body) :=
  (check _ _).andThen fun _ => ret _

theorem decref (nodeid n : Nat) : Even files (decref (σ := σ) nodeid n) (decref nodeid n) := by
  apply Lockstep.set
  intro s r alike
  exact ⟨rfl, alike.rootAbs, alike.modeRw, alike.table.decrefInode nodeid n, alike.nextHandle, alike.tree,
    alike.handles, alike.own, alike.own'⟩

theorem onForget (nodeid : Nat) (body : Bytes) :
    Even files (onForget (σ := σ) nodeid body) (onForget nodeid body) :=
  branch (ret _) ((decref _ _).andThen fun _ => ret _)

theorem onBatchForget (body : Bytes) : Even files (onBatchForget (σ := σ) body) (onBatchForget body) := by
  apply branch (ret _)
  apply Lockstep.andThen
  · apply Lockstep.loop (I := Alike files)
    intro record
    exact (decref record.1 record.2).post fun _ _ _ _ after => after.2
  · exact fun _ _ => ret _

theorem unlinkOrRmdir (parent : Nat) (body : Bytes) (isRmdir : Bool) :
    Even files (unlinkOrRmdir host parent body isRmdir) (unlinkOrRmdir host parent body isRmdir) := by
  apply requireWritable.andThen
  intro _
  apply (childPath _ _).andThen
  rintro ⟨rel, abs⟩
  have unindexed : Even files (σ := σ)
      (do
        change fun s => s.setTable (s.table.unindex rel)
        pure Reply.ack)
      (do
        change fun s => s.setTable (s.table.unindex rel)
        pure Reply.ack) := by
    apply andThen
    · exact Lockstep.set _ _ fun _ _ alike => ⟨rfl, alike.setTable (alike.table.unindex rel)⟩
    · exact fun _ => ret _
  apply branch
  · exact (sys rfl).andThen fun _ => unindexed
  · exact (sys rfl).andThen fun _ => unindexed

theorem onLink (parent : Nat) (body : Bytes) :
    Even files (onLink host parent body) (onLink host parent body) := by
  apply requireWritable.andThen
  intro _
  apply (check _ _).andThen
  intro _
  apply (check _ _).andThen
  intro _
  apply (requireInode _).andThen
  intro old
  apply (requireInode _).andThen
  intro newParent
  apply (absPath _).andThen
  intro oldAbs
  apply (absPath _).andThen
  intro newAbs
  apply (sys rfl).andThen
  intro _
  apply (sys (c := .lstat newAbs) rfl).andThen
  intro st
  apply look
  intro s r alike
  apply Lockstep.learn (F := Table.Same) (M := Alike files)
  · apply Lockstep.found (alike.table.retarget _ _)
    · exact fun _ _ same _ _ now => ⟨same, now⟩
    · exact fun _ _ now => now
  intro t u same
  apply andThen
  · exact Lockstep.set _ _ fun _ _ now => ⟨rfl, now.setTable same⟩
  intro _
  exact (attrOf st _).andThen fun attr => ret _

theorem direntType (dirRel : Bytes) (child : HostDirent) :
    Even files (direntType host dirRel child) (direntType host dirRel child) := by
  apply branch (ret _)
  apply look
  intro s r alike
  rw [alike.rootAbs]
  cases buildAbsPath r.rootAbs (joinRel dirRel child.name.bytes) with
  | none => exact ret _
  | some abs =>
    apply (attempt (c := .lstat abs) rfl).andThen
    intro answer
    cases answer with
    | ok st => exact ret _
    | error errno => exact ret _

theorem packDirents (dirRel : Bytes) (children : List HostDirent) :
    ∀ entries, Even files (packDirents host dirRel children entries)
      (packDirents host dirRel children entries) := by
  induction children with
  | nil => exact fun entries => ret _
  | cons child rest ih =>
    intro entries
    apply branch (ret _)
    apply branch (ih entries)
    apply (direntType dirRel child).andThen
    intro dtype
    cases dtype with
    | none => exact ih entries
    | some dtype => exact ih _

theorem newHandle {P : State σ → State σ → Prop} {other : OpenEntry}
    (alike : ∀ s r, P s r → Alike files s r)
    (put : ∀ s r, P s r → Alike files (s.putHandle entry) (r.putHandle other)) :
    Lockstep P (newHandle entry) (newHandle other) (fun a b s r => a = b ∧ Alike files s r)
      (Stopped files) := by
  apply Lockstep.learn (F := fun s r => s.nextHandle = r.nextHandle) (M := P)
  · exact Lockstep.get fun s r before => ⟨(alike s r before).nextHandle, before⟩
  intro s r next
  rw [next]
  apply Lockstep.andThen (M := fun _ _ => P)
  · exact Lockstep.check Iff.rfl (fun _ _ _ before => before) fun _ _ _ _ => trivial
  intro _ _
  apply Lockstep.andThen (M := fun _ _ => Alike files)
  · exact Lockstep.set _ _ put
  · exact fun _ _ => ret _

theorem onOpendir (nodeid : Nat) : Even files (onOpendir host nodeid) (onOpendir host nodeid) := by
  apply (requireInode _).andThen
  intro entry
  apply (absPath _).andThen
  intro abs
  apply (sys (c := .listDir abs) rfl).andThen
  intro children
  apply (packDirents _ children []).andThen
  intro entries
  apply andThen (newHandle (fun _ _ alike => alike) fun s r alike => alike.put (.dir 0 entries) nofun nofun)
  exact fun fh => ret _

theorem onReaddir (body : Bytes) : Even files (onReaddir (σ := σ) body) (onReaddir body) := by
  apply (check _ _).andThen
  intro _
  apply look
  intro s r alike
  have paired := alike.handles (u64At body 0)
  cases inS : s.handles.lookup (u64At body 0) <;> cases inR : r.handles.lookup (u64At body 0) <;>
    rw [inS, inR] at paired <;> cases paired
  case none.none.none => exact exit _
  case some.some.dir => exact ret _
  case some.some.lost => exact exit _
  case some.some.file => exact exit _

end Even

section Descriptors

theorem attempt_on (f : FdCall) (open_ : f ≠ .close) : Lockstep (On files fd gd)
    (attempt host (f.on fd)) (attempt host (f.on gd))
    (fun a b s r => f.answer fd a = f.answer gd b ∧ On files fd gd s r) (Stopped files) := by
  intro s r on
  obtain ⟨o, here, there⟩ := on.object
  exact ⟨(files.descriptor _ _ f _ _ _ on.alike.tree here there).1, on.called f open_⟩

theorem sys_on (f : FdCall) (open_ : f ≠ .close) : Lockstep (On files fd gd)
    (sys host (f.on fd)) (sys host (f.on gd))
    (fun a b s r => f.answer fd (.ok a) = f.answer gd (.ok b) ∧ On files fd gd s r) (Stopped files) := by
  have errors : ∀ e d, f.answer fd (.error e) = f.answer gd (.error d) → e = d := by
    intro e d same
    cases f <;> exact Except.error.inj same
  have mixed : ∀ a e, f.answer fd (.ok a) ≠ f.answer gd (.error e) := by
    intro a e same
    cases f <;> exact nomatch same
  have mixed' : ∀ e a, f.answer fd (.error e) ≠ f.answer gd (.ok a) := by
    intro a e same
    cases f <;> exact nomatch same
  apply Lockstep.learn (attempt_on f open_)
  rintro (e | a) (d | b) same
  · cases errors e d same
    exact Lockstep.exit fun _ _ on => on.alike
  · exact absurd same (mixed' _ _)
  · exact absurd same (mixed _ _)
  · exact Lockstep.ret fun _ _ on => ⟨same, on⟩

theorem openFile_on (fh : Nat) : Lockstep (Alike files) (openFile fh) (openFile fh)
    (fun f g s r => On files f.fd g.fd s r) (Stopped files) := by
  rw [openFile_need]
  apply Lockstep.andThen (M := fun s r t u => t = s ∧ u = r ∧ Alike files s r)
  · exact Lockstep.get fun _ _ alike => ⟨rfl, rfl, alike⟩
  intro s r t u now
  obtain ⟨rfl, rfl, alike⟩ := now
  have related := alike.files_of fh
  have ran : Lockstep (fun s r => s = t ∧ r = u) (need (t.hostFile fh) (.error .badf))
      (need (u.hostFile fh) (.error .badf)) (fun f g s r => On files f.fd g.fd s r) (Stopped files) := by
    apply Lockstep.found related
    · rintro f g both _ _ ⟨rfl, rfl⟩
      exact ⟨alike, both⟩
    · rintro _ _ ⟨rfl, rfl⟩
      exact alike
  exact ran t u ⟨rfl, rfl⟩

theorem onRead_even (body : Bytes) : Even files (onRead host body) (onRead host body) := by
  apply (Even.check _ _).andThen
  intro _
  apply Lockstep.andThen (openFile_on _)
  intro f g
  apply Lockstep.andThen (M := fun _ _ => On files f.fd g.fd)
  · exact Lockstep.check Iff.rfl (fun _ _ _ on => on) fun _ _ _ _ => trivial
  intro _ _
  apply Lockstep.learn (sys_on (.pread _ _) nofun)
  rintro (bytes : Bytes) (other : Bytes) same
  cases Except.ok.inj same
  exact Lockstep.ret fun _ _ on => ⟨rfl, on.alike⟩

theorem pwriteAll_on (data : Bytes) (offset : Nat) (rounds : Nat) : ∀ done,
    Lockstep (On files fd gd) (pwriteAll host fd data offset done rounds)
      (pwriteAll host gd data offset done rounds) (fun a b s r => a = b ∧ On files fd gd s r)
        (Stopped files) := by
  induction rounds with
  | zero => exact fun done => Lockstep.ret fun _ _ on => ⟨rfl, on⟩
  | succ rounds ih =>
    intro done
    unfold pwriteAll
    apply Lockstep.branch
    · exact fun _ => Lockstep.ret fun _ _ on => ⟨rfl, on⟩
    intro _
    apply Lockstep.andThen (M := fun _ _ => On files fd gd)
    · exact Lockstep.check Iff.rfl (fun _ _ _ on => on) fun _ _ _ _ => trivial
    intro _ _
    apply Lockstep.learn (sys_on (.pwrite _ _) (by rintro ⟨⟩))
    rintro (n : Nat) (m : Nat) same
    cases Except.ok.inj same
    apply Lockstep.branch
    · exact fun _ => Lockstep.ret fun _ _ on => ⟨rfl, on⟩
    · exact fun _ => ih _

theorem onWrite_even (body : Bytes) : Even files (onWrite host body) (onWrite host body) := by
  apply Even.requireWritable.andThen
  intro _
  apply (Even.check _ _).andThen
  intro _
  apply (Even.check _ _).andThen
  intro _
  apply Lockstep.andThen (openFile_on _)
  intro f g
  apply Lockstep.learn (pwriteAll_on _ _ _ 0)
  rintro written _ rfl
  apply Lockstep.andThen (M := fun _ _ => On files f.fd g.fd)
  · exact Lockstep.check Iff.rfl (fun _ _ _ on => on) fun _ _ _ _ => trivial
  · exact fun _ _ => Lockstep.ret fun _ _ on => ⟨rfl, on.alike⟩

theorem setattrFile_on (valid : Nat) (body : Bytes) :
    Lockstep (Alike files) (setattrFile valid body) (setattrFile valid body)
      (fun a b s r => Option.Rel (fun f g => On files f.fd g.fd s r) a b ∧ Alike files s r)
        (Stopped files) := by
  apply Lockstep.branch
  · exact fun _ => Lockstep.ret fun _ _ alike => ⟨.none, alike⟩
  intro _
  apply Lockstep.andThen (openFile_on _)
  exact fun f g => Lockstep.ret fun _ _ on => ⟨.some on, on.alike⟩

theorem fileOrPath_even {valid : Nat} {body : Bytes} {m : Option HostFile → Handler σ PUnit}
    (named : ∀ f g, Lockstep (On files f.fd g.fd) (m (some f)) (m (some g))
      (fun a b s r => a = b ∧ Alike files s r) (Stopped files)) (unnamed : Even files (m none) (m none)) :
    Even files (setattrFile valid body >>= m) (setattrFile valid body >>= m) := by
  apply Lockstep.andThen (setattrFile_on valid body)
  rintro (_ | f) (_ | g)
  · exact unnamed.pre fun _ _ before => before.2
  · exact fun _ _ before => nomatch before.1
  · exact fun _ _ before => nomatch before.1
  · apply (named f g).pre
    rintro s r ⟨both, -⟩
    cases both with
    | some on => exact on

theorem fdThen_even (f : FdCall) (open_ : f ≠ .close) : Lockstep (On files fd gd)
    (do
      let _ ← sys host (f.on fd)
      pure PUnit.unit)
    (do
      let _ ← sys host (f.on gd)
      pure PUnit.unit) (fun a b s r => a = b ∧ Alike files s r) (Stopped files) := by
  apply Lockstep.andThen (sys_on f open_)
  exact fun _ _ => Lockstep.ret fun _ _ after => ⟨rfl, after.2.alike⟩

theorem setattrSize_even (valid : Nat) (body abs : Bytes) :
    Even files (setattrSize host valid body abs) (setattrSize host valid body abs) := by
  apply Even.branch (Even.ret _)
  apply (Even.check _ _).andThen
  intro _
  apply (Even.check _ _).andThen
  intro _
  apply fileOrPath_even
  · exact fun f g => fdThen_even (.ftruncate _) nofun
  · exact (Even.sys rfl).andThen fun _ => Even.ret _

theorem setattrMode_even (valid : Nat) (body abs : Bytes) :
    Even files (setattrMode host valid body abs) (setattrMode host valid body abs) := by
  apply Even.branch (Even.ret _)
  apply (Even.check _ _).andThen
  intro _
  apply fileOrPath_even
  · exact fun f g => fdThen_even (.fchmod _) nofun
  · exact (Even.sys rfl).andThen fun _ => Even.ret _

theorem onSetattr_even (nodeid : Nat) (body : Bytes) :
    Even files (onSetattr host nodeid body) (onSetattr host nodeid body) := by
  apply (Even.check _ _).andThen
  intro _
  apply Even.look
  intro s r alike
  apply Even.andThen (Even.agree (by rw [alike.modeRw]) _)
  intro _
  apply (Even.inodePath _).andThen
  intro abs
  apply (setattrSize_even _ _ _).andThen
  intro _
  apply (setattrMode_even _ _ _).andThen
  intro _
  apply (Even.sys (c := .lstat abs) rfl).andThen
  exact fun st => Even.attrReply st nodeid

theorem attempt_eq {s : State σ} {answer : Except Nat c.Answer}
    (answers : (host.call s.host c).1 = answer) : attempt host c s = (.ok answer, s.called host c) := by
  rw [← answers]
  rfl

/-- An open gives both sides a descriptor that no handle has. -/
theorem open_fresh (path : Bytes) (flags : HostFlags) (mode : Nat) :
    Lockstep (Alike files) (sys host (.open_ path flags mode)) (sys host (.open_ path flags mode))
      (fun (fd gd : Nat) s r => Fresh files fd gd s r) (Stopped files) := by
  intro s r alike
  obtain ⟨trees, answers⟩ := files.opens s.host r.host path flags mode alike.tree
  unfold sys
  match here : (host.call s.host (.open_ path flags mode)).1,
    there : (host.call r.host (.open_ path flags mode)).1 with
  | .ok (fd : Nat), .ok (gd : Nat) =>
    rw [bind_ok (attempt_eq here), bind_ok (attempt_eq there)]
    exact alike.gained path flags mode here there
  | .error e, .error d =>
    rw [here, there] at answers
    cases (answers : e = d)
    rw [bind_ok (attempt_eq here), bind_ok (attempt_eq there)]
    exact ⟨rfl, alike.called trees (fun _ _ _ => nofun) fun _ _ _ => nofun⟩
  | .ok fd, .error d =>
    rw [here, there] at answers
    exact (answers : False).elim
  | .error e, .ok gd =>
    rw [here, there] at answers
    exact (answers : False).elim

theorem onOpen_even (nodeid : Nat) (body : Bytes) :
    Even files (onOpen host nodeid body) (onOpen host nodeid body) := by
  apply (Even.check _ _).andThen
  intro _
  apply Even.look
  intro s r alike
  apply Even.andThen (Even.agree (by rw [alike.modeRw]) _)
  intro _
  apply (Even.inodePath _).andThen
  intro abs
  apply Lockstep.andThen (open_fresh _ _ _)
  intro fd gd
  apply Lockstep.learn (Even.newHandle (fun _ _ fresh => fresh.alike) fun _ _ fresh => fresh.put _ _ _)
  rintro fh _ rfl
  exact Even.ret _

theorem onCreate_even (parent : Nat) (body : Bytes) :
    Even files (onCreate host parent body) (onCreate host parent body) := by
  apply Even.requireWritable.andThen
  intro _
  apply (Even.check _ _).andThen
  intro _
  apply (Even.childPath _ _).andThen
  rintro ⟨rel, abs⟩
  apply Lockstep.andThen (open_fresh _ _ _)
  intro fd gd
  apply Lockstep.learn (F := fun a b => a = b) (M := Fresh files fd gd)
  · intro s r fresh
    obtain ⟨o, here, there⟩ := fresh.object
    exact ⟨(files.descriptor _ _ .fstat _ _ _ fresh.alike.tree here there).1, fresh.called .fstat nofun⟩
  rintro answer _ rfl
  cases answer with
  | error errno =>
    apply Lockstep.andThen (M := fun _ _ => Alike files)
    · exact fun s r fresh => fresh.closed
    · exact fun _ _ => Even.exit _
  | ok st =>
    have bound : Lockstep (Fresh files fd gd) (bindInode rel) (bindInode rel)
        (fun a b s r => a = b ∧ Fresh files fd gd s r) (Stopped files) := by
      apply Lockstep.learn (F := Alike files) (M := Fresh files fd gd)
      · exact Lockstep.get fun _ _ fresh => ⟨fresh.alike, fresh⟩
      intro s r alike
      obtain ⟨nodeid, same⟩ := alike.table.bindInode rel
      dsimp only
      rw [nodeid, same.nextInode]
      apply Lockstep.andThen (M := fun _ _ => Fresh files fd gd)
      · exact Lockstep.check Iff.rfl (fun _ _ _ fresh => fresh) fun _ _ _ _ => trivial
      intro _ _
      apply Lockstep.andThen (M := fun _ _ => Fresh files fd gd)
      · exact Lockstep.set _ _ fun _ _ fresh => fresh.setTable same
      · exact fun _ _ => Lockstep.ret fun _ _ fresh => ⟨rfl, fresh⟩
    apply Lockstep.learn bound
    rintro nodeid _ rfl
    apply Lockstep.learn (Even.newHandle (fun _ _ fresh => fresh.alike) fun _ _ fresh => fresh.put _ _ _)
    rintro fh _ rfl
    exact (Even.attrOf st nodeid).andThen fun attr => Even.ret _

theorem releaseHandle_even (fh : Nat) : Even files (releaseHandle host fh) (releaseHandle host fh) := by
  apply Lockstep.andThen (M := fun s r t u => t = s ∧ u = r ∧ Alike files s r)
  · exact Lockstep.get fun _ _ alike => ⟨rfl, rfl, alike⟩
  intro s r t u now
  obtain ⟨rfl, rfl, alike⟩ := now
  have paired := alike.handles fh
  cases inS : t.handles.lookup fh <;> cases inR : u.handles.lookup fh <;> rw [inS, inR] at paired
    <;> cases paired
  case none.none.none => exact ⟨rfl, alike⟩
  case some.some.dir => exact ⟨rfl, alike.erase fh⟩
  case some.some.lost => exact ⟨rfl, alike.erase fh⟩
  case some.some.file f g nodeid flags o isHere isThere =>
    have trees := (files.descriptor _ _ .close _ _ _ alike.tree isHere isThere).2
    exact ⟨rfl, alike.release (hostFile_of inS) (hostFile_of inR) trees⟩

end Descriptors

section Requests

variable {s : State σ} {request : Request}

/-- A RENAME whose two runs visit the inodes in orders that make no difference. -/
theorem onRename_even (op : request.op = .rename) (order other : List Nat)
    (either : ∀ old new oldAbs newAbs, Renames host s request old new oldAbs newAbs true →
      s.table.Either old new order other) :
    Lockstep (fun t r => t = s ∧ Alike files t r)
      (onRename host (readInHeader request.frame).nodeid request.body order)
      (onRename host (readInHeader request.frame).nodeid request.body other)
      (fun a b t r => a = b ∧ Alike files t r) (Stopped files) := by
  apply Lockstep.knowing (R := Halted host s request) requireWritable_exact Even.requireWritable
  intro _ writable
  apply Lockstep.knowing (R := Halted host s request) (ensure_exact _ _) (Even.check _ _)
  intro _ _
  apply Lockstep.knowing (R := Halted host s request) (need_exact _ _) (Even.found _ _)
  rintro ⟨oldName, newName⟩ parsed
  apply Lockstep.knowing (R := Halted host s request) (ensure_exact _ _) (Even.check _ _)
  intro _ oldValid
  apply Lockstep.knowing (R := Halted host s request) (ensure_exact _ _) (Even.check _ _)
  intro _ newValid
  apply Lockstep.knowing (R := Halted host s request) (requireInode_exact _) (Even.requireInode _)
  intro oldParent oldFound
  apply Lockstep.knowing (R := Halted host s request) (requireInode_exact _) (Even.requireInode _)
  intro newParent newFound
  apply Lockstep.knowing (R := Halted host s request) (absPath_exact _) (Even.absPath _)
  intro oldAbs oldBuilt
  apply Lockstep.knowing (R := Halted host s request) (absPath_exact _) (Even.absPath _)
  intro newAbs newBuilt
  apply Lockstep.knowing (R := Halted host s request) (sys_exact (.rename oldAbs newAbs)) (Even.sys rfl)
  intro _ granted
  let b := s.called host (.rename oldAbs newAbs)
  apply Lockstep.knowing (attempt_answer (R := Halted host s request) b (.lstat newAbs) rfl)
    (Even.attempt rfl)
  intro renamed answered
  have renames : Renames host s request (joinRel oldParent.relPath oldName)
      (joinRel newParent.relPath newName) oldAbs newAbs (renamedIsDir renamed) := by
    refine ⟨writable, ⟨_, _, _, _, names_rename op parsed, ⟨oldValid, ⟨_, oldFound, rfl⟩, oldBuilt⟩,
      ⟨newValid, ⟨_, newFound, rfl⟩, newBuilt⟩⟩, ⟨_, granted⟩, ?_⟩
    exact congrArg renamedIsDir answered.symm
  apply Lockstep.andThen (M := fun _ _ t r => t.table = s.table ∧ Alike files t r)
  · exact Lockstep.check Iff.rfl (fun _ _ _ now => ⟨now.1.table, now.2⟩) fun _ _ _ _ => trivial
  intro _ _
  apply Lockstep.learn (F := fun t r => t.table = s.table ∧ Alike files t r) (M := Alike files)
  · exact Lockstep.get fun _ _ now => ⟨now, now.2⟩
  rintro t r ⟨same, alike⟩
  apply Lockstep.learn (F := Table.Same) (M := Alike files)
  · refine Lockstep.found ?_ (fun _ _ same _ _ now => ⟨same, now⟩) fun _ _ now => now
    apply alike.table.rename
    intro dir
    rw [same]
    exact either _ _ _ _ (dir ▸ renames)
  intro table table' same
  apply Even.andThen
  · exact Lockstep.set _ _ fun _ _ now => ⟨rfl, now.setTable same⟩
  · exact fun _ => Even.ret _

/-- One request, with two orders in which the inodes are visited. -/
theorem handle_even (order other : List Nat)
    (either : ∀ old new oldAbs newAbs, Renames host s request old new oldAbs newAbs true →
      s.table.Either old new order other) :
    Lockstep (fun t r => t = s ∧ Alike files t r)
      (handle host order (readInHeader request.frame) request.body)
      (handle host other (readInHeader request.frame) request.body)
      (fun a b t r => a = b ∧ Alike files t r) (Stopped files) := by
  have even : ∀ {m n : Handler σ Reply}, Even files m n →
      Lockstep (fun t r => t = s ∧ Alike files t r) m n (fun a b t r => a = b ∧ Alike files t r)
        (Stopped files) :=
    fun runs => runs.pre fun _ _ before => before.2
  unfold handle
  cases op : Op.ofCode (readInHeader request.frame).opcode
  case rename => exact onRename_even op order other either
  case init => exact even (Even.onInit _)
  case destroy => exact even (Even.ret _)
  case interrupt => exact even (Even.ret _)
  case forget => exact even (Even.onForget _ _)
  case batchForget => exact even (Even.onBatchForget _)
  case lookup => exact even (Even.onLookup _ _)
  case getattr => exact even (Even.onGetattr _)
  case readlink => exact even (Even.onReadlink _)
  case create => exact even (onCreate_even _ _)
  case write => exact even (onWrite_even _)
  case release => exact even ((Even.check _ _).andThen fun _ => releaseHandle_even _)
  case open_ => exact even (onOpen_even _ _)
  case read => exact even (onRead_even _)
  case opendir => exact even (Even.onOpendir _)
  case readdir => exact even (Even.onReaddir _)
  case releasedir => exact even ((Even.check _ _).andThen fun _ => releaseHandle_even _)
  case mkdir => exact even (Even.onMkdir _ _)
  case unlink => exact even (Even.unlinkOrRmdir _ _ _)
  case rmdir => exact even (Even.unlinkOrRmdir _ _ _)
  case link => exact even (Even.onLink _ _)
  case symlink => exact even (Even.onSymlink _ _)
  case setattr => exact even (onSetattr_even _ _)
  case other => exact even (Even.exit _)
  all_goals exact even (Even.ret _)

theorem Alike.note {r : State σ} (alike : Alike files s r) (a b : Event) :
    Alike files (s.note a) (r.note b) :=
  ⟨alike.rootAbs, alike.modeRw, alike.table, alike.nextHandle, alike.tree, alike.handles, alike.own,
    alike.own'⟩

/-- Both mounts answer a request with the same frame and stay alike, or both stop. -/
theorem Alike.serve {r : State σ} (alike : Alike files s r) {other : Request}
    (frame : request.frame = other.frame)
    (either : ∀ old new oldAbs newAbs, Renames host s request old new oldAbs newAbs true →
      s.table.Either old new request.order other.order) :
    s.dispatch host request = r.dispatch host other ∧
      ((s.dispatch host request = none ∧ (s.serve host request).trapped = true) ∨
        Alike files (s.serve host request) (r.serve host other)) := by
  have even : Lockstep (fun t r => t = s ∧ Alike files t r) _ _ _ _ :=
    handle_even request.order other.order either
  unfold State.dispatch State.serve
  rw [← frame]
  dsimp only
  rcases even.ends ⟨rfl, alike⟩ with ⟨reply, _, t, u, ranS, ranR, rfl, after⟩ | ⟨e, t, u, ranS, ranR, after⟩
  · rw [show bodyOf request.frame = request.body from rfl, ranS, ranR]
    exact ⟨rfl, .inr (after.note _ _)⟩
  · rw [show bodyOf request.frame = request.body from rfl, ranS, ranR]
    cases e with
    | error errno => exact ⟨rfl, .inr (Alike.note after _ _)⟩
    | trap =>
      refine ⟨rfl, .inl ⟨?_, rfl⟩⟩
      dsimp only
      split <;> rfl

end Requests
end Lockstep
end Machinen.Mount
