import Machinen.Mount.Effects
import Machinen.Mount.ReadOnly

/-! Which requests the process survives, and that the frame of an answer tells its own
length. A handler traps where a cast or an addition leaves its type. -/
namespace Machinen.Mount

open Bytes Prog

variable {σ : Type}

def Fits (width : Nat) (n : Int) : Prop := 0 ≤ n ∧ n < 2 ^ width

instance (width : Nat) (n : Int) : Decidable (Fits width n) := inferInstanceAs (Decidable (_ ∧ _))

/-- The fields of an attribute can hold the stat; a time before 1970 is negative. -/
structure Stat.Casts (st : Stat) : Prop where
  size : Fits 64 st.size
  blocks : Fits 64 st.blocks
  atime : Fits 64 st.atime
  mtime : Fits 64 st.mtime
  ctime : Fits 64 st.ctime
  atimensec : Fits 32 st.atimensec
  mtimensec : Fits 32 st.mtimensec
  ctimensec : Fits 32 st.ctimensec
  nlink : Fits 32 st.nlink
  rdev : Fits 32 st.rdev
  blksize : Fits 32 st.blksize

theorem intCast_some {width : Nat} {n : Int} (fits : Fits width n) : intCast width n = some n.toNat :=
  if_pos fits

theorem intCast_fits {width m : Nat} {n : Int} (cast : intCast width n = some m) : Fits width n := by
  unfold intCast at cast
  split at cast
  · assumption
  · cases cast

variable {st : Stat} {stats : List Stat} {t : State σ} {table : Table}
  {handler : Handler σ Reply}

theorem statToAttr_some (casts : st.Casts) (ino : Nat) :
    ∃ attr, statToAttr st ino = some attr := by
  simp only [statToAttr, intCast_some casts.size, intCast_some casts.blocks, intCast_some casts.atime,
    intCast_some casts.mtime, intCast_some casts.ctime, intCast_some casts.atimensec,
    intCast_some casts.mtimensec, intCast_some casts.ctimensec, intCast_some casts.nlink,
    intCast_some casts.rdev, intCast_some casts.blksize]
  exact ⟨_, rfl⟩

theorem statToAttr_casts {ino : Nat} {attr : Attr} (cast : statToAttr st ino = some attr) :
    st.Casts := by
  simp only [statToAttr, Option.bind_eq_bind, Option.bind_eq_some_iff] at cast
  obtain ⟨_, size, _, blocks, _, atime, _, mtime, _, ctime, _, atimensec, _, mtimensec, _, ctimensec,
    _, nlink, _, rdev, _, blksize, -⟩ := cast
  exact {
    size := intCast_fits size, blocks := intCast_fits blocks, atime := intCast_fits atime
    mtime := intCast_fits mtime, ctime := intCast_fits ctime, atimensec := intCast_fits atimensec
    mtimensec := intCast_fits mtimensec, ctimensec := intCast_fits ctimensec
    nlink := intCast_fits nlink, rdev := intCast_fits rdev, blksize := intCast_fits blksize }

/-- What the host's read and write calls keep to. -/
structure Host.Posix (host : Host σ) : Prop where
  pread : ∀ h fd size offset (bytes : Bytes), (host.call h (.pread fd size offset)).1 = .ok bytes →
    bytes.length < 2 ^ 31
  pwrite : ∀ h fd data offset (n : Nat), (host.call h (.pwrite fd data offset)).1 = .ok n →
    n ≤ data.length ∧ offset + n < 2 ^ 63

def Call.statted : (c : Call) → Except Nat c.Answer → List Stat
  | .lstat _, .ok st => [st]
  | .fstat _, .ok st => [st]
  | _, _ => []

/-- The stats that the host answers in a log, and the host after it. -/
def Host.replay (host : Host σ) : σ → List Event → List Stat × σ
  | h, [] => ([], h)
  | h, .call c :: rest =>
    let later := host.replay (host.after h c) rest
    (c.statted (host.call h c).1 ++ later.1, later.2)
  | h, .forget _ _ :: rest | h, .reply _ :: rest => host.replay h rest

theorem Host.replay_append (host : Host σ) (first rest : List Event) : ∀ h, host.replay h (first ++ rest) =
    ((host.replay h first).1 ++ (host.replay (host.replay h first).2 rest).1,
      (host.replay (host.replay h first).2 rest).2) := by
  induction first with
  | nil => exact fun h => rfl
  | cons event first ih =>
    intro h
    cases event with
    | call c =>
      simp only [List.cons_append, Host.replay, ih, List.append_assoc]
    | forget | reply => exact ih h

/-- The stats that the host has answered from one state to another. -/
def statsSince (host : Host σ) (s t : State σ) : List Stat :=
  (host.replay s.host (t.log.drop s.log.length)).1

namespace Op

/-- The replies that hold the attributes of a file. -/
def attests : Op → Bool
  | .lookup | .getattr | .setattr | .symlink | .mkdir | .link | .create => true
  | _ => false

def silent : Op → Bool
  | .forget | .batchForget | .interrupt => true
  | _ => false

end Op

def Request.op (request : Request) : Op := Op.ofCode (readInHeader request.frame).opcode

def Request.body (request : Request) : Bytes := bodyOf request.frame

/-- The descriptor behind a handle, if there is one. -/
def State.hostFile (s : State σ) (fh : Nat) : Option HostFile :=
  match s.handles.lookup fh with
  | some (.file (some file) _ _) => some file
  | _ => none

/-- An offset that reaches the host fits the host's signed type. -/
structure Offsets (s : State σ) (request : Request) : Prop where
  read : request.op = .read → 32 ≤ request.body.length → s.hostFile (u64At request.body 0) ≠ none →
    u64At request.body 8 < 2 ^ 63
  write : request.op = .write → s.modeRw = true →
    fuseWriteInSize + u32At request.body 16 ≤ request.body.length → 0 < u32At request.body 16 →
    s.hostFile (u64At request.body 0) ≠ none → u64At request.body 8 < 2 ^ 63

/-- Up to the state `t`, nothing that the request brought or the host answered traps. -/
structure Fine (host : Host σ) (s : State σ) (request : Request) (t : State σ) : Prop where
  offsets : Offsets s request
  stats : request.op.attests = true → ∀ st ∈ statsSince host s t, st.Casts

/-- A nodeid and a handle are left to give. -/
structure HasIds (t : State σ) : Prop where
  inode : t.table.nextInode + 1 < 2 ^ 64
  handle : t.nextHandle + 1 < 2 ^ 64

namespace Reply

/-- There is a reply, and its length fits the field for it. -/
def Framed (reply : Reply) : Prop :=
  ∃ errno payload, reply.parts = some (errno, payload) ∧ fuseOutHeaderSize + payload.length < 2 ^ 32

theorem Framed.encode {reply : Reply} (framed : reply.Framed) (unique : Nat) :
    ∃ frame, reply.encode unique = some frame ∧ frame.length < 2 ^ 32 ∧
      toNat (slice frame 0 4) = frame.length := by
  obtain ⟨errno, payload, parts, fits⟩ := framed
  refine ⟨_, by rw [Reply.encode, parts]; rfl, ?_⟩
  have length : ∀ err : Bytes, err.length = 4 → (le 4 (fuseOutHeaderSize + payload.length) ++ err ++
      le 8 unique ++ payload).length = fuseOutHeaderSize + payload.length := by
    intro err four
    simp only [List.length_append, le_length, four, fuseOutHeaderSize]
  have front : ∀ err : Bytes, slice (le 4 (fuseOutHeaderSize + payload.length) ++ err ++ le 8 unique ++
      payload) 0 4 = le 4 (fuseOutHeaderSize + payload.length) := by
    intro err
    rw [slice, List.drop_zero, List.append_assoc, List.append_assoc]
    exact List.take_left' (le_length ..)
  dsimp only
  rw [front, length _ (le_length ..), toNat_le 4 _ (by simpa using fits)]
  exact ⟨fits, rfl⟩

theorem error_framed (errno : Errno) : (Reply.error errno).Framed :=
  ⟨errno.code, [], rfl, by decide⟩

theorem ack_framed : Reply.ack.Framed := ⟨0, [], rfl, by decide⟩

theorem opened_framed (fh : Nat) : (Reply.opened fh).Framed :=
  ⟨0, _, rfl, by simp only [openOut, List.length_append, le_length]; decide⟩

theorem attr_framed (attr : Attr) : (Reply.attr attr).Framed :=
  ⟨0, _, rfl, by simp only [writeAttr, List.length_append, le_length]; decide⟩

theorem entry_framed (attr : Attr) : (Reply.entry attr).Framed :=
  ⟨0, _, rfl, by simp only [entryOut, writeAttr, List.length_append, le_length]; decide⟩

theorem created_framed (attr : Attr) (fh : Nat) : (Reply.created attr fh).Framed :=
  ⟨0, _, rfl, by simp only [entryOut, openOut, writeAttr, List.length_append, le_length]; decide⟩

theorem data_framed {payload : Bytes} (short : payload.length < 2 ^ 31) : (Reply.data payload).Framed :=
  ⟨0, payload, rfl, by unfold fuseOutHeaderSize; omega⟩

end Reply

/-- The frame of a reply; none where its length does not fit the field for it. -/
def Reply.send (reply : Reply) (unique : Nat) : Option (Option Bytes) :=
  match reply.encode unique with
  | Option.none => some Option.none
  | some frame => if frame.length < 2 ^ 32 then some (some frame) else Option.none

/-- The frame that a request is answered with, if any; none where the process stops. -/
def State.dispatch (host : Host σ) (s : State σ) (request : Request) : Option (Option Bytes) :=
  let hdr := readInHeader request.frame
  if request.frame.length < fuseInHeaderSize then none
  else match (handle host request.order hdr (bodyOf request.frame) s).1 with
    | .ok reply => reply.send hdr.unique
    | .error (.error errno) => (Reply.error errno).send hdr.unique
    | .error .trap => none

/-- No reply to FORGET, BATCH_FORGET and INTERRUPT, and to every other request a frame
that tells its own length. -/
def Answered (request : Request) (answer : Option (Option Bytes)) : Prop :=
  if request.op.silent then answer = some none
  else ∃ frame, answer = some (some frame) ∧ toNat (slice frame 0 4) = frame.length

theorem Reply.Framed.send {reply : Reply} (framed : reply.Framed) (unique : Nat) :
    ∃ frame, reply.send unique = some (some frame) ∧ toNat (slice frame 0 4) = frame.length := by
  obtain ⟨frame, encoded, fits, length⟩ := framed.encode unique
  refine ⟨frame, ?_, length⟩
  unfold Reply.send
  rw [encoded]
  exact if_pos fits

/-- A program that keeps a property and does not trap. -/
def Gentle {A : Type} (I : State σ → Prop) (m : Handler σ A) : Prop :=
  Triple I m (fun _ => I) fun e t => e ≠ .trap ∧ I t

namespace Gentle

variable {I : State σ → Prop} {A B : Type}

theorem ret (a : A) : Gentle I (pure a) := Triple.ret fun _ inv => inv

theorem exit (errno : Errno) : Gentle I (fail errno : Handler σ A) := Triple.exit fun _ inv => ⟨nofun, inv⟩

theorem get : Gentle I (read : Handler σ (State σ)) := Triple.get fun _ inv => inv

theorem andThen {m : Handler σ A} {f : A → Handler σ B} (first : Gentle I m) (rest : ∀ a, Gentle I (f a)) :
    Gentle I (m >>= f) := Triple.andThen first rest

theorem check (condition : Prop) [Decidable condition] (errno : Errno) :
    Gentle I (ensure condition (.error errno)) :=
  Triple.check (fun _ _ inv => inv) fun _ _ inv => ⟨nofun, inv⟩

theorem found (value : Option A) (errno : Errno) : Gentle I (need value (.error errno)) :=
  Triple.found (fun _ _ _ inv => inv) fun _ _ inv => ⟨nofun, inv⟩

theorem set (f : State σ → State σ) (now : ∀ t, I t → I (f t)) : Gentle I (change f) := Triple.set f now

theorem branch {condition : Prop} [Decidable condition] {m n : Handler σ A} (yes : Gentle I m)
    (no : Gentle I n) : Gentle I (if condition then m else n) := Triple.branch (fun _ => yes) fun _ => no

theorem absPath (rel : Bytes) : Gentle I (absPath rel) := get.andThen fun _ => found _ _

theorem requireInode (nodeid : Nat) : Gentle I (requireInode nodeid) := get.andThen fun _ => found _ _

theorem requireWritable : Gentle I requireWritable := get.andThen fun _ => check _ _

theorem inodePath (nodeid : Nat) : Gentle I (inodePath nodeid) :=
  (requireInode nodeid).andThen fun entry => absPath entry.relPath

theorem childPath (parent : Nat) (name : Bytes) : Gentle I (childPath parent name) := by
  apply (check _ _).andThen
  intro _
  apply (requireInode parent).andThen
  intro entry
  exact (absPath _).andThen fun _ => ret _

theorem openFile (fh : Nat) : Gentle I (openFile fh) := by
  apply get.andThen
  intro u
  split
  · exact ret _
  · exact exit _

theorem setattrFile (valid : Nat) (body : Bytes) : Gentle I (setattrFile valid body) :=
  branch (ret _) ((openFile _).andThen fun _ => ret _)

variable {host : Host σ} {c : Call}

theorem attempt (keeps : ∀ t, I t → I (t.called host c)) : Gentle I (attempt host c) := by
  intro t inv
  exact keeps t inv

theorem sys (keeps : ∀ t, I t → I (t.called host c)) : Gentle I (sys host c) := by
  apply (attempt keeps).andThen
  intro answer
  cases answer with
  | ok a => exact ret _
  | error errno => exact exit _

theorem setattrSize (valid : Nat) (body abs : Bytes) (keeps : ∀ t c, (∀ answer, c.statted answer = []) →
    I t → I (t.called host c)) : Gentle I (setattrSize host valid body abs) := by
  apply branch (ret _)
  apply (check _ _).andThen
  intro _
  apply (check _ _).andThen
  intro _
  apply (setattrFile valid body).andThen
  intro file
  cases file with
  | some file => exact (sys fun t => keeps t _ fun _ => rfl).andThen fun _ => ret _
  | none => exact (sys fun t => keeps t _ fun _ => rfl).andThen fun _ => ret _

theorem setattrMode (valid : Nat) (body abs : Bytes) (keeps : ∀ t c, (∀ answer, c.statted answer = []) →
    I t → I (t.called host c)) : Gentle I (setattrMode host valid body abs) := by
  apply branch (ret _)
  apply (check _ _).andThen
  intro _
  apply (setattrFile valid body).andThen
  intro file
  cases file with
  | some file => exact (sys fun t => keeps t _ fun _ => rfl).andThen fun _ => ret _
  | none => exact (sys fun t => keeps t _ fun _ => rfl).andThen fun _ => ret _

end Gentle

section Attests

variable {host : Host σ} {s : State σ}

/-- Since `s` the host has answered these stats. -/
def Heard (host : Host σ) (s : State σ) (stats : List Stat) (t : State σ) : Prop :=
  ∃ events, t.log = s.log ++ events ∧ host.replay s.host events = (stats, t.host)

theorem Heard.since (heard : Heard host s stats t) :
    statsSince host s t = stats := by
  obtain ⟨events, log, replayed⟩ := heard
  rw [statsSince, log, List.drop_left, replayed]

/-- The table is this one, and no handle was given. -/
structure Told (host : Host σ) (s : State σ) (table : Table) (stats : List Stat) (t : State σ) : Prop where
  table : t.table = table
  handle : t.nextHandle = s.nextHandle
  heard : Heard host s stats t

theorem Told.refl (host : Host σ) (s : State σ) : Told host s s.table [] s :=
  ⟨rfl, rfl, [], (List.append_nil _).symm, rfl⟩

theorem Told.called (told : Told host s table stats t)
    (c : Call) : Told host s table (stats ++ c.statted (host.call t.host c).1) (t.called host c) where
  table := told.table
  handle := told.handle
  heard := by
    obtain ⟨events, log, replayed⟩ := told.heard
    refine ⟨events ++ [.call c], ?_, ?_⟩
    · rw [← List.append_assoc, ← log]
      rfl
    · rw [host.replay_append, replayed]
      simp only [Host.replay, List.append_nil]
      rfl

theorem Told.quietly (told : Told host s table stats t)
    {c : Call} (quiet : ∀ answer, c.statted answer = []) : Told host s table stats (t.called host c) := by
  have called := told.called c
  rwa [quiet, List.append_nil] at called

/-- What the attributes of a reply are made of casts, and traps exactly where it does not. -/
def Judged (host : Host σ) (s : State σ) : Exit → State σ → Prop
  | .error _, t => ∀ st ∈ statsSince host s t, st.Casts
  | .trap, t => ¬ ∀ st ∈ statsSince host s t, st.Casts

theorem Told.error (told : Told host s table [] t) {e : Exit}
    (errs : e ≠ .trap) : Judged host s e t := by
  cases e with
  | error errno =>
    intro st listed
    rw [told.heard.since] at listed
    exact nomatch listed
  | trap => exact absurd rfl errs

/-- A handler whose reply holds the attributes of a file. -/
def Attests (host : Host σ) (s : State σ) (handler : Handler σ Reply) : Prop :=
  Triple (Told host s s.table []) handler
    (fun reply t => reply.Framed ∧ ∀ st ∈ statsSince host s t, st.Casts) (Judged host s)

theorem Attests.andThen {A : Type} {m : Handler σ A} {f : A → Handler σ Reply}
    (first : Gentle (Told host s s.table []) m) (rest : ∀ a, Attests host s (f a)) :
    Attests host s (m >>= f) :=
  Triple.andThen (Triple.weaken first (fun _ told => told) (fun _ _ told => told)
    fun _ _ ended => ended.2.error ended.1) rest

theorem attempt_told (c : Call) {R : Exit → State σ → Prop} :
    Triple (Told host s table []) (attempt host c) (fun answer t => Told host s table (c.statted answer) t)
      R :=
  fun _ told => told.called c

theorem lstat_told (abs : Bytes) : Triple (Told host s table []) (sys host (.lstat abs))
    (fun (st : Stat) t => Told host s table [st] t) (Judged host s) := by
  apply (attempt_told (.lstat abs)).andThen
  intro answer
  cases answer with
  | ok st => exact Triple.ret fun _ told => told
  | error errno => exact Triple.exit fun _ told => Told.error told nofun

theorem attrOf_told (nodeid : Nat) : Triple (Heard host s [st]) (attrOf st nodeid)
    (fun _ t => ∀ st ∈ statsSince host s t, st.Casts) (Judged host s) := by
  apply Triple.found
  · intro attr cast t heard given listed
    rw [heard.since] at listed
    exact List.mem_singleton.mp listed ▸ statToAttr_casts cast
  · intro uncast t heard all
    have casts := all st (by rw [heard.since]; exact List.mem_singleton_self st)
    obtain ⟨attr, cast⟩ := statToAttr_some casts nodeid
    exact nomatch uncast.symm.trans cast

theorem bindInode_room (t : Table) (path : Bytes) : (t.bindInode path).2.nextInode ≤ t.nextInode + 1 := by
  unfold Table.bindInode
  split
  · exact Nat.le_refl _
  split
  · unfold Table.countLookup
    split
    · exact Nat.le_succ _
    · exact Nat.le_succ _
  · exact Nat.le_refl _

variable (ids : HasIds s)

include ids

theorem bindInode_told (rel : Bytes) :
    Triple (Told host s s.table stats) (bindInode rel)
    (fun _ => Told host s (s.table.bindInode rel).2 stats) (Judged host s) := by
  apply Triple.learn (Triple.get (Q := fun u t => u.table = s.table ∧ Told host s s.table stats t)
    fun _ told => ⟨told.table, told⟩)
  intro u same
  rw [same]
  apply Triple.andThen (M := fun _ => Told host s s.table stats)
  · exact Triple.check (fun _ _ told => told) fun full =>
      absurd (Nat.lt_of_le_of_lt (bindInode_room s.table rel) ids.inode) full
  intro _
  apply Triple.andThen (M := fun _ => Told host s (s.table.bindInode rel).2 stats)
  · exact Triple.set _ fun t told => ⟨rfl, told.handle, told.heard⟩
  · exact fun _ => Triple.ret fun _ told => told

theorem newHandle_told (entry : OpenEntry) :
    Triple (Told host s table stats) (newHandle entry) (fun _ => Heard host s stats) (Judged host s) := by
  apply Triple.learn (Triple.get (Q := fun u t => u.nextHandle = s.nextHandle ∧ Told host s table stats t)
    fun _ told => ⟨told.handle, told⟩)
  intro u same
  rw [same]
  apply Triple.andThen (M := fun _ => Told host s table stats)
  · exact Triple.check (fun _ _ told => told) fun full => absurd ids.handle full
  intro _
  apply Triple.andThen (M := fun _ => Heard host s stats)
  · exact Triple.set _ fun t told => told.heard
  · exact fun _ => Triple.ret fun _ heard => heard

theorem entry_told (rel : Bytes) : Triple (Told host s s.table [st]) (do
      let nodeid ← bindInode rel
      let attr ← attrOf st nodeid
      pure (Reply.entry attr))
    (fun reply t => reply.Framed ∧ ∀ st ∈ statsSince host s t, st.Casts) (Judged host s) := by
  apply (bindInode_told ids rel).andThen
  intro nodeid
  apply ((attrOf_told nodeid).pre fun t told => told.heard).andThen
  exact fun attr => Triple.ret fun t casts => ⟨Reply.entry_framed attr, casts⟩

theorem onLookup_attests (parent : Nat) (body : Bytes) : Attests host s (onLookup host parent body) := by
  apply Attests.andThen (Gentle.childPath _ _)
  rintro ⟨rel, abs⟩
  apply (lstat_told abs).andThen
  exact fun st => entry_told ids rel

theorem onMkdir_attests (parent : Nat) (body : Bytes) : Attests host s (onMkdir host parent body) := by
  apply Attests.andThen Gentle.requireWritable
  intro _
  apply Attests.andThen (Gentle.check _ _)
  intro _
  apply Attests.andThen (Gentle.childPath _ _)
  rintro ⟨rel, abs⟩
  apply Attests.andThen (Gentle.sys fun t told => told.quietly fun _ => rfl)
  intro _
  apply (lstat_told abs).andThen
  exact fun st => entry_told ids rel

theorem onSymlink_attests (parent : Nat) (body : Bytes) : Attests host s (onSymlink host parent body) := by
  apply Attests.andThen Gentle.requireWritable
  intro _
  apply Attests.andThen (Gentle.found _ _)
  rintro ⟨name, target⟩
  apply Attests.andThen (Gentle.check _ _)
  intro _
  apply Attests.andThen (Gentle.check _ _)
  intro _
  apply Attests.andThen (Gentle.childPath _ _)
  rintro ⟨rel, abs⟩
  apply Attests.andThen (Gentle.check _ _)
  intro _
  apply Attests.andThen (Gentle.sys fun t told => told.quietly fun _ => rfl)
  intro _
  apply (lstat_told abs).andThen
  exact fun st => entry_told ids rel

theorem onCreate_attests (parent : Nat) (body : Bytes) : Attests host s (onCreate host parent body) := by
  apply Attests.andThen Gentle.requireWritable
  intro _
  apply Attests.andThen (Gentle.check _ _)
  intro _
  apply Attests.andThen (Gentle.childPath _ _)
  rintro ⟨rel, abs⟩
  apply Attests.andThen (Gentle.sys fun t told => told.quietly fun _ => rfl)
  intro (fd : Nat)
  apply (attempt_told (.fstat fd)).andThen
  intro answer
  cases answer with
  | error errno =>
    apply Attests.andThen (Gentle.attempt fun t told => told.quietly fun _ => rfl)
    exact fun _ => Triple.exit fun t told => told.error nofun
  | ok st =>
    apply (bindInode_told ids rel).andThen
    intro nodeid
    apply (newHandle_told ids _).andThen
    intro fh
    apply (attrOf_told nodeid).andThen
    exact fun attr => Triple.ret fun t casts => ⟨Reply.created_framed attr fh, casts⟩

omit ids

theorem attr_told (nodeid : Nat) : Triple (Told host s table [st]) (do
      let attr ← attrOf st nodeid
      pure (Reply.attr attr))
    (fun reply t => reply.Framed ∧ ∀ st ∈ statsSince host s t, st.Casts) (Judged host s) := by
  apply ((attrOf_told nodeid).pre fun t told => told.heard).andThen
  exact fun attr => Triple.ret fun t casts => ⟨Reply.attr_framed attr, casts⟩

theorem onGetattr_attests (nodeid : Nat) : Attests host s (onGetattr host nodeid) := by
  apply Attests.andThen (Gentle.inodePath _)
  intro abs
  apply (lstat_told abs).andThen
  exact fun st => attr_told nodeid

theorem onSetattr_attests (nodeid : Nat) (body : Bytes) : Attests host s (onSetattr host nodeid body) := by
  apply Attests.andThen (Gentle.check _ _)
  intro _
  apply Attests.andThen Gentle.get
  intro u
  apply Attests.andThen (Gentle.check _ _)
  intro _
  apply Attests.andThen (Gentle.inodePath _)
  intro abs
  apply Attests.andThen (Gentle.setattrSize _ _ _ fun t c quiet told => told.quietly quiet)
  intro _
  apply Attests.andThen (Gentle.setattrMode _ _ _ fun t c quiet told => told.quietly quiet)
  intro _
  apply (lstat_told abs).andThen
  exact fun st => attr_told nodeid

theorem onLink_attests (parent : Nat) (body : Bytes) : Attests host s (onLink host parent body) := by
  apply Attests.andThen Gentle.requireWritable
  intro _
  apply Attests.andThen (Gentle.check _ _)
  intro _
  apply Attests.andThen (Gentle.check _ _)
  intro _
  have found : Triple (Told host s s.table []) (requireInode (u64At body 0))
      (fun old t => s.table.lookup (u64At body 0) = some old ∧ Told host s s.table [] t)
        (Judged host s) := by
    apply Triple.learn (Triple.get (Q := fun u t => u.table = s.table ∧ Told host s s.table [] t)
      fun _ told => ⟨told.table, told⟩)
    intro u same
    rw [same]
    exact Triple.found (fun _ present _ told => ⟨present, told⟩) fun _ _ told => told.error nofun
  apply found.learn
  intro old known
  apply Attests.andThen (Gentle.requireInode _)
  intro newParent
  apply Attests.andThen (Gentle.absPath _)
  intro oldAbs
  apply Attests.andThen (Gentle.absPath _)
  intro newAbs
  apply Attests.andThen (Gentle.sys fun t told => told.quietly fun _ => rfl)
  intro _
  apply (lstat_told newAbs).andThen
  intro st
  apply Triple.learn (Triple.get (Q := fun u t => u.table = s.table ∧ Told host s s.table [st] t)
    fun _ told => ⟨told.table, told⟩)
  intro u same
  rw [same]
  apply Triple.andThen (M := fun _ => Told host s s.table [st])
  · apply Triple.found (fun _ _ _ told => told)
    intro none_
    rw [Table.retarget, known] at none_
    exact nomatch none_
  intro table
  apply Triple.andThen (M := fun _ => Told host s table [st])
  · exact Triple.set _ fun t told => ⟨rfl, told.handle, told.heard⟩
  intro _
  apply ((attrOf_told _).pre fun t told => told.heard).andThen
  exact fun attr => Triple.ret fun t casts => ⟨Reply.entry_framed attr, casts⟩

end Attests

section Endures

variable {host : Host σ}

/-- A handler that replies and does not trap as long as there are ids. -/
def Endures (I : State σ → Prop) (handler : Handler σ Reply) : Prop :=
  Triple I handler (fun reply _ => reply.Framed) fun e _ => e ≠ .trap

theorem Endures.andThen {A : Type} {I : State σ → Prop} {m : Handler σ A} {f : A → Handler σ Reply}
    (first : Gentle I m) (rest : ∀ a, Endures I (f a)) : Endures I (m >>= f) :=
  Triple.andThen (Triple.weaken first (fun _ inv => inv) (fun _ _ inv => inv) fun _ _ ended => ended.1) rest

theorem Endures.ret {I : State σ → Prop} {reply : Reply} (framed : reply.Framed) : Endures I (pure reply) :=
  Triple.ret fun _ _ => framed

theorem Endures.exit {I : State σ → Prop} (errno : Errno) : Endures I (fail errno) :=
  Triple.exit fun _ _ => nofun

theorem sys_ids (c : Call) : Gentle HasIds (sys host c) := Gentle.sys fun _ ids => ⟨ids.inode, ids.handle⟩

theorem attempt_ids (c : Call) : Gentle HasIds (attempt host c) :=
  Gentle.attempt fun _ ids => ⟨ids.inode, ids.handle⟩

theorem opened_endures (entry : OpenEntry) : Endures (σ := σ) HasIds (do
    let fh ← newHandle entry
    pure (Reply.opened fh)) := by
  apply Triple.andThen (M := fun _ _ => True)
  · apply Triple.andThen (Triple.get (Q := fun u _ => HasIds u) fun _ ids => ids)
    intro u
    apply Triple.andThen (M := fun _ _ => True)
    · exact Triple.check (fun _ _ _ => trivial) fun full t ids => absurd ids.handle full
    intro _
    apply Triple.andThen (M := fun _ _ => True)
    · exact Triple.set _ fun _ _ => trivial
    · exact fun _ => Triple.ret fun _ _ => trivial
  · exact fun fh => Triple.ret fun _ _ => Reply.opened_framed fh

theorem onInit_endures {I : State σ → Prop} (body : Bytes) : Endures I (onInit body) := by
  apply Endures.andThen (Gentle.check _ _)
  intro _
  apply Endures.ret
  apply Reply.data_framed
  simp only [initOut, List.length_append, le_length, List.length_replicate]
  decide

theorem onReadlink_endures (nodeid : Nat) : Endures HasIds (onReadlink host nodeid) := by
  apply Endures.andThen (Gentle.inodePath _)
  intro abs
  apply Endures.andThen (sys_ids _)
  intro (target : Bytes)
  apply Endures.ret
  apply Reply.data_framed
  have short : (Bytes.slice target 0 4096).length ≤ 4096 := List.length_take_le _ _
  exact Nat.lt_of_le_of_lt short (by decide)

theorem onOpen_endures (nodeid : Nat) (body : Bytes) : Endures HasIds (onOpen host nodeid body) := by
  apply Endures.andThen (Gentle.check _ _)
  intro _
  apply Endures.andThen Gentle.get
  intro u
  apply Endures.andThen (Gentle.check _ _)
  intro _
  apply Endures.andThen (Gentle.inodePath _)
  intro abs
  apply Endures.andThen (sys_ids _)
  exact fun fd => opened_endures _

theorem direntType_gentle (dirRel : Bytes) (child : HostDirent) :
    Gentle HasIds (direntType host dirRel child) := by
  apply Gentle.branch (Gentle.ret _)
  apply Gentle.get.andThen
  intro u
  split
  · exact Gentle.ret _
  · apply (attempt_ids _).andThen
    intro answer
    cases answer with
    | ok st => exact Gentle.ret _
    | error errno => exact Gentle.ret _

theorem packDirents_gentle (dirRel : Bytes) (children : List HostDirent) :
    ∀ entries, Gentle HasIds (packDirents host dirRel children entries) := by
  induction children with
  | nil => exact fun entries => Gentle.ret _
  | cons child rest ih =>
    intro entries
    apply Gentle.branch (Gentle.ret _)
    apply Gentle.branch (ih entries)
    apply (direntType_gentle dirRel child).andThen
    intro dtype
    cases dtype with
    | none => exact ih entries
    | some dtype => exact ih _

theorem onOpendir_endures (nodeid : Nat) : Endures HasIds (onOpendir host nodeid) := by
  apply Endures.andThen (Gentle.requireInode _)
  intro entry
  apply Endures.andThen (Gentle.absPath _)
  intro abs
  apply Endures.andThen (sys_ids _)
  intro children
  apply Endures.andThen (packDirents_gentle _ children [])
  exact fun entries => opened_endures _

/-- Every directory handle holds what OPENDIR has packed. -/
def Listed (s : State σ) : Prop :=
  ∀ fh nodeid entries, s.handles.lookup fh = some (.dir nodeid entries) → Packed entries

theorem fillDirents_length (entries : List Bytes) : ∀ room, (∀ entry ∈ entries, entry.length ≤ 24 + 1024) →
    (fillDirents room entries).length ≤ entries.length * (24 + 1024) := by
  induction entries with
  | nil => exact fun room _ => Nat.zero_le _
  | cons entry rest ih =>
    intro room short
    have first := short entry List.mem_cons_self
    have later := ih (room - entry.length) fun other listed => short other (List.mem_cons_of_mem _ listed)
    unfold fillDirents
    split
    · exact Nat.zero_le _
    · rw [List.length_append, List.length_cons, Nat.succ_mul]
      omega

theorem onReaddir_endures (body : Bytes) : Endures (σ := σ) Listed (onReaddir body) := by
  apply Endures.andThen (Gentle.check _ _)
  intro _
  apply Triple.andThen (Triple.get (Q := fun u _ => Listed u) fun _ listed => listed)
  intro u
  split
  · rename_i nodeid entries found
    apply Triple.ret
    intro t listed
    have packed := listed _ nodeid entries found
    have filled := fillDirents_length (entries.drop (u64At body 8)) (u32At body 16)
      fun entry there => packed.short entry (List.mem_of_mem_drop there)
    have few : (entries.drop (u64At body 8)).length ≤ maxDirents :=
      Nat.le_trans (List.length_drop ▸ Nat.sub_le _ _) packed.few
    apply Reply.data_framed
    calc (fillDirents (u32At body 16) (entries.drop (u64At body 8))).length
        ≤ (entries.drop (u64At body 8)).length * (24 + 1024) := filled
      _ ≤ maxDirents * (24 + 1024) := Nat.mul_le_mul_right _ few
      _ < 2 ^ 31 := by decide
  · exact Endures.exit _

theorem releaseHandle_endures (fh : Nat) : Endures HasIds (releaseHandle host fh) := by
  have freed : Endures (σ := σ) HasIds (do
      change fun s => s.setHandles (s.handles.erase fh)
      pure .ack) :=
    Endures.andThen (Gentle.set _ fun _ ids => ⟨ids.inode, ids.handle⟩) fun _ =>
      Endures.ret Reply.ack_framed
  apply Endures.andThen Gentle.get
  intro u
  split
  · exact Endures.ret Reply.ack_framed
  · exact Endures.andThen (attempt_ids _) fun _ => freed
  · exact freed

theorem unlinkOrRmdir_endures (parent : Nat) (body : Bytes) (isRmdir : Bool) :
    Endures HasIds (unlinkOrRmdir host parent body isRmdir) := by
  apply Endures.andThen Gentle.requireWritable
  intro _
  apply Endures.andThen (Gentle.childPath _ _)
  rintro ⟨rel, abs⟩
  have unindexed : Endures (σ := σ) HasIds (do
      change fun s => s.setTable (s.table.unindex rel)
      pure .ack) :=
    Endures.andThen (Gentle.set _ fun _ ids => ⟨ids.inode, ids.handle⟩) fun _ =>
      Endures.ret Reply.ack_framed
  apply Triple.branch
  · exact fun _ => Endures.andThen (sys_ids _) fun _ => unindexed
  · exact fun _ => Endures.andThen (sys_ids _) fun _ => unindexed

theorem onRename_endures (parent : Nat) (body : Bytes) (order : List Nat) :
    Endures HasIds (onRename host parent body order) := by
  apply Endures.andThen Gentle.requireWritable
  intro _
  apply Endures.andThen (Gentle.check _ _)
  intro _
  apply Endures.andThen (Gentle.found _ _)
  rintro ⟨oldName, newName⟩
  apply Triple.learn (Triple.check (Q := fun _ t => validateName oldName = true ∧ HasIds t)
    (fun valid _ ids => ⟨valid, ids⟩) fun _ _ _ => nofun)
  intro _ oldValid
  apply Triple.learn (Triple.check (Q := fun _ t => validateName newName = true ∧ HasIds t)
    (fun valid _ ids => ⟨valid, ids⟩) fun _ _ _ => nofun)
  intro _ newValid
  apply Endures.andThen (Gentle.requireInode _)
  intro oldParent
  apply Endures.andThen (Gentle.requireInode _)
  intro newParent
  apply Endures.andThen (Gentle.absPath _)
  intro oldAbs
  apply Endures.andThen (Gentle.absPath _)
  intro newAbs
  apply Endures.andThen (sys_ids _)
  intro _
  apply Endures.andThen (attempt_ids _)
  intro renamed
  apply Triple.andThen (M := fun _ _ => True)
  · exact Triple.check (fun _ _ _ => trivial) fun empty =>
      absurd ⟨joinRel_nonempty oldValid, joinRel_nonempty newValid⟩ empty
  intro _
  apply Endures.andThen Gentle.get
  intro u
  apply Endures.andThen (Gentle.found _ _)
  intro table
  exact Endures.andThen (Gentle.set _ fun _ _ => trivial) fun _ => Endures.ret Reply.ack_framed

end Endures

section Offsets

variable {host : Host σ} {s : State σ} {request : Request}

theorem openFile_need (fh : Nat) :
    openFile (σ := σ) fh = read >>= fun s => need (s.hostFile fh) (.error .badf) := by
  unfold openFile
  congr 1
  funext s
  unfold State.hostFile
  rcases s.handles.lookup fh with _ | ⟨_ | file, nodeid, flags⟩ | ⟨nodeid, entries⟩ <;> rfl

theorem openFile_exact {fh : Nat} : Triple (· = s) (openFile fh)
    (fun file t => s.hostFile fh = some file ∧ t = s) fun e _ => s.hostFile fh = none ∧ e ≠ .trap := by
  rw [openFile_need]
  apply Triple.learn (Triple.get (Q := fun u t => u = s ∧ t = s) fun _ same => ⟨same, same⟩)
  rintro _ rfl
  exact Triple.found (fun _ found _ same => ⟨found, same⟩) fun none_ _ _ => ⟨none_, nofun⟩

/-- A request that moves bytes stops the process exactly where its offset is too large. -/
def Charged (s : State σ) (request : Request) : Exit → State σ → Prop
  | .error _, _ => Offsets s request
  | .trap, _ => ¬ Offsets s request

theorem Charged.error {e : Exit} (errs : e ≠ .trap) (fine : Offsets s request) :
    Charged s request e t := by
  cases e with
  | error errno => exact fine
  | trap => exact absurd rfl errs

theorem Offsets.ofRead (op : request.op = .read) (below : 32 ≤ request.body.length →
    s.hostFile (u64At request.body 0) ≠ none → u64At request.body 8 < 2 ^ 63) : Offsets s request :=
  ⟨fun _ => below, fun other => nomatch op.symm.trans other⟩

theorem Offsets.ofWrite (op : request.op = .write) (below : s.modeRw = true →
    fuseWriteInSize + u32At request.body 16 ≤ request.body.length → 0 < u32At request.body 16 →
    s.hostFile (u64At request.body 0) ≠ none → u64At request.body 8 < 2 ^ 63) : Offsets s request :=
  ⟨fun other => (nomatch op.symm.trans other), fun _ => below⟩

theorem Offsets.other (noRead : request.op ≠ .read) (noWrite : request.op ≠ .write) : Offsets s request :=
  ⟨fun op => absurd op noRead, fun op => absurd op noWrite⟩

def Moving (s : State σ) (request : Request) (handler : Handler σ Reply) : Prop :=
  Triple (· = s) handler (fun reply _ => reply.Framed ∧ Offsets s request) (Charged s request)

theorem checked {A : Type} {condition : Prop} [Decidable condition] {errno : Errno}
    {m : PUnit → Handler σ A} {Q : A → State σ → Prop} {R : Exit → State σ → Prop}
    (fails : ¬ condition → R (.error errno) s) (rest : condition → Triple (· = s) (m ⟨⟩) Q R) :
    Triple (· = s) (ensure condition (.error errno) >>= m) Q R := by
  apply Triple.learn (Triple.check (Q := fun _ t => condition ∧ t = s) (fun holds _ same => ⟨holds, same⟩)
    fun no t same => same ▸ fails no)
  exact fun _ holds => rest holds

theorem sys_answered (c : Call) (fine : Offsets s request) : Triple (fun _ : State σ => True) (sys host c)
    (fun answer _ => (∃ h, (host.call h c).1 = .ok answer) ∧ True) (Charged s request) := by
  intro t _
  unfold sys
  match answered : host.call t.host c with
  | (.ok answer, next) =>
    rw [bind_ok (by unfold attempt; rw [bind_ok (rfl : read t = _), answered]; rfl)]
    exact ⟨⟨t.host, by rw [answered]⟩, trivial⟩
  | (.error errno, next) =>
    rw [bind_ok (by unfold attempt; rw [bind_ok (rfl : read t = _), answered]; rfl)]
    exact fine

theorem onRead_moving (posix : host.Posix) (op : request.op = .read) :
    Moving s request (onRead host request.body) := by
  apply checked (fun short => .ofRead op fun long => absurd long short)
  intro long
  apply Triple.learn (openFile_exact.weaken (fun _ same => same) (fun _ _ found => found)
    fun e t ended => Charged.error ended.2 (.ofRead op fun _ opened => absurd ended.1 opened))
  intro file found
  by_cases below : u64At request.body 8 < 2 ^ 63
  · have fine : Offsets s request := .ofRead op fun _ _ => below
    apply Triple.andThen (M := fun _ _ => True)
    · exact Triple.check (fun _ _ _ => trivial) fun above => absurd below above
    intro _
    apply (sys_answered (.pread file.fd _ _) fine).learn
    rintro (bytes : Bytes) ⟨h, answered⟩
    apply Triple.ret
    intro t _
    have short := posix.pread _ _ _ _ _ answered
    have cut : (Bytes.slice bytes 0 (u32At request.body 16)).length ≤ bytes.length :=
      Nat.le_trans (List.length_take_le' _ _) (List.length_drop ▸ Nat.sub_le _ _)
    exact ⟨Reply.data_framed (Nat.lt_of_le_of_lt cut short), fine⟩
  · have charged : ¬ Offsets s request := fun fine => below (fine.read op long (by rw [found]; exact nofun))
    apply Triple.andThen (M := fun _ _ => False)
    · exact Triple.check (fun holds => absurd holds below) fun _ _ _ => charged
    · exact fun _ _ never => never.elim

theorem pwriteAll_moving (posix : host.Posix) (fine : Offsets s request) (fd : Nat) (data : Bytes)
    (offset rounds : Nat) : ∀ done, done ≤ data.length → (done < data.length → offset + done < 2 ^ 63) →
    Triple (fun _ => True) (pwriteAll host fd data offset done rounds)
      (fun written _ => written ≤ data.length ∧ True) (Charged s request) := by
  induction rounds with
  | zero => exact fun done within _ => Triple.ret fun _ _ => ⟨within, trivial⟩
  | succ rounds ih =>
    intro done within below
    unfold pwriteAll
    apply Triple.branch
    · exact fun _ => Triple.ret fun _ _ => ⟨within, trivial⟩
    intro more
    apply Triple.andThen (M := fun _ _ => True)
    · exact Triple.check (fun _ _ _ => trivial) fun above => absurd (below (Nat.lt_of_not_le more)) above
    intro _
    apply (sys_answered (.pwrite fd _ _) fine).learn
    rintro (n : Nat) ⟨h, answered⟩
    obtain ⟨part, inside⟩ := posix.pwrite _ _ _ _ _ answered
    rw [List.length_drop] at part
    apply Triple.branch
    · exact fun _ => Triple.ret fun _ _ => ⟨within, trivial⟩
    · exact fun _ => ih (done + n) (by omega) fun _ => by omega

theorem pwriteAll_traps {P : State σ → Prop} {R : Exit → State σ → Prop} (fd : Nat) {data : Bytes}
    {offset : Nat} (some_ : 0 < data.length) (above : ¬ offset < 2 ^ 63) (trapped : ∀ t, R .trap t) :
    Triple P (pwriteAll host fd data offset 0 data.length) (fun _ _ => False) R := by
  obtain ⟨rounds, more⟩ := Nat.exists_eq_succ_of_ne_zero (Nat.ne_of_gt some_)
  rw [more]
  unfold pwriteAll
  apply Triple.branch
  · exact fun none_ => absurd some_ (Nat.not_lt.mpr none_)
  intro _
  apply Triple.andThen (M := fun _ _ => False)
  · exact Triple.check (fun holds => absurd holds above) fun _ t _ => trapped t
  · exact fun _ _ never => never.elim

theorem onWrite_moving (posix : host.Posix) (op : request.op = .write) :
    Moving s request (onWrite host request.body) := by
  have writable : Triple (· = s) requireWritable (fun _ t => s.modeRw = true ∧ t = s)
    (Charged s request) := by
    apply Triple.learn (Triple.get (Q := fun u t => u = s ∧ t = s) fun _ same => ⟨same, same⟩)
    rintro _ rfl
    exact Triple.check (fun holds _ same => ⟨holds, same⟩) fun no _ _ =>
      Charged.error (e := .error .rofs) nofun (.ofWrite op fun holds => absurd holds no)
  apply writable.learn
  intro _ rw_
  apply checked (fun short => .ofWrite op fun _ long =>
    absurd (Nat.le_trans (Nat.le_add_right _ _) long) short)
  intro _
  apply checked (fun short => .ofWrite op fun _ long => absurd long short)
  intro long
  apply Triple.learn (openFile_exact.weaken (fun _ same => same) (fun _ _ found => found)
    fun e t ended => Charged.error ended.2 (.ofWrite op fun _ _ _ opened => absurd ended.1 opened))
  intro file found
  have size : (slice request.body fuseWriteInSize (u32At request.body 16)).length = u32At request.body 16 :=
    slice_length _ _ _ long
  have word : u32At request.body 16 < 2 ^ 32 := slice_lt request.body 16 4
  by_cases fine : Offsets s request
  · have below : 0 < u32At request.body 16 → u64At request.body 8 < 2 ^ 63 := fun some_ =>
      fine.write op rw_ long some_ (by rw [found]; exact nofun)
    have written := pwriteAll_moving posix fine file.fd
      (slice request.body fuseWriteInSize (u32At request.body 16))
      (u64At request.body 8) (slice request.body fuseWriteInSize (u32At request.body 16)).length 0
        (Nat.zero_le _)
      fun some_ => below (size ▸ some_)
    apply Triple.learn (written.pre fun _ _ => trivial)
    intro count within
    apply Triple.andThen (M := fun _ _ => True)
    · exact Triple.check (fun _ _ _ => trivial) fun above =>
        absurd (Nat.lt_of_le_of_lt (size ▸ within) word) above
    intro _
    apply Triple.ret
    intro t _
    refine ⟨Reply.data_framed ?_, fine⟩
    rw [List.length_append, le_length, le_length]
    decide
  · have above : ¬ u64At request.body 8 < 2 ^ 63 := fun below => fine (.ofWrite op fun _ _ _ _ => below)
    have some_ : 0 < u32At request.body 16 := by
      by_contra none_
      exact fine (.ofWrite op fun _ _ some_ => absurd some_ none_)
    apply Triple.andThen (pwriteAll_traps file.fd (Nat.lt_of_lt_of_eq some_ size.symm) above fun _ => fine)
    exact fun _ _ never => never.elim

end Offsets

section Dispatch

variable {host : Host σ} {s : State σ} {request : Request}

/-- A reply to every request but the silent ones, and a trap exactly where something is not fine. -/
def Verdict (host : Host σ) (s : State σ) (request : Request) (handler : Handler σ Reply) : Prop :=
  Triple (· = s) handler
    (fun reply t => (if request.op.silent then reply = .none else reply.Framed) ∧ Fine host s request t)
    (fun e t => request.op.silent = false ∧ match e with
      | .error _ => Fine host s request t
      | .trap => ¬ Fine host s request t)

theorem Attests.verdict {op : Op} (attests : Attests host s handler)
    (is : request.op = op) (kind : op.attests = true) (speaks : op.silent = false)
    (moves : op ≠ .read ∧ op ≠ .write) : Verdict host s request handler := by
  subst is
  have offsets : Offsets s request := .other moves.1 moves.2
  refine Triple.weaken attests (fun t same => same ▸ Told.refl host s) ?_ ?_
  · rintro reply t ⟨framed, casts⟩
    rw [if_neg (by rw [speaks]; exact nofun)]
    exact ⟨framed, offsets, fun _ => casts⟩
  · intro e t judged
    cases e with
    | error errno => exact ⟨speaks, offsets, fun _ => judged⟩
    | trap => exact ⟨speaks, fun fine => judged (fine.stats kind)⟩

theorem Moving.verdict {op : Op} (moving : Moving s request handler) (is : request.op = op)
    (kind : op.attests = false) (speaks : op.silent = false) : Verdict host s request handler := by
  subst is
  have stats : ∀ t, request.op.attests = true → ∀ st ∈ statsSince host s t, st.Casts :=
    fun _ attests => absurd (kind.symm.trans attests) Bool.false_ne_true
  refine Triple.weaken moving (fun _ same => same) ?_ ?_
  · rintro reply t ⟨framed, offsets⟩
    rw [if_neg (by rw [speaks]; exact nofun)]
    exact ⟨framed, offsets, stats t⟩
  · intro e t charged
    cases e with
    | error errno => exact ⟨speaks, charged, stats t⟩
    | trap => exact ⟨speaks, fun fine => charged fine.offsets⟩

theorem Endures.verdict {op : Op} {I : State σ → Prop} (endures : Endures I handler) (start : I s)
    (is : request.op = op) (kind : op.attests = false) (speaks : op.silent = false)
    (moves : op ≠ .read ∧ op ≠ .write) : Verdict host s request handler := by
  subst is
  have offsets : Offsets s request := .other moves.1 moves.2
  have moving : Moving s request handler :=
    Triple.weaken endures (fun t same => same ▸ start) (fun reply t framed => ⟨framed, offsets⟩)
      fun e t errs => Charged.error errs offsets
  exact moving.verdict rfl kind speaks

theorem silent_verdict {op : Op} (ends : ∃ t, handler s = (.ok .none, t))
    (is : request.op = op) (quiet : op.silent = true) (kind : op.attests = false)
    (moves : op ≠ .read ∧ op ≠ .write) : Verdict host s request handler := by
  subst is
  obtain ⟨t, ran⟩ := ends
  intro u same
  rw [same, ran]
  exact ⟨by rw [if_pos quiet], .other moves.1 moves.2, fun attests => absurd (kind.symm.trans attests) nofun⟩

theorem handle_verdict (posix : host.Posix) (ids : HasIds s) (listed : Listed s) :
    Verdict host s request (handle host request.order (readInHeader request.frame)
      (bodyOf request.frame)) := by
  have framed : ∀ {op : Op} {reply : Reply}, reply.Framed → request.op = op → op.attests = false →
      op.silent = false → op ≠ .read ∧ op ≠ .write → Verdict host s request (pure reply) := by
    intro op reply framed is kind speaks moves
    exact Endures.verdict (I := fun _ => True) (.ret framed) trivial is kind speaks moves
  unfold handle
  split <;> rename_i op
  · exact (onInit_endures _).verdict ids op rfl rfl (by decide)
  · exact framed Reply.ack_framed op rfl rfl (by decide)
  · exact silent_verdict ⟨s, rfl⟩ op rfl rfl (by decide)
  · apply silent_verdict _ op rfl rfl (by decide)
    unfold onForget
    split
    · exact ⟨_, rfl⟩
    · exact ⟨_, rfl⟩
  · apply silent_verdict _ op rfl rfl (by decide)
    unfold onBatchForget
    split
    · exact ⟨_, rfl⟩
    · exact ⟨_, by rw [bind_ok (forgetAll_exact _ s)]; rfl⟩
  · exact (onLookup_attests ids _ _).verdict op rfl rfl (by decide)
  · exact (onGetattr_attests _).verdict op rfl rfl (by decide)
  · exact (onReadlink_endures _).verdict ids op rfl rfl (by decide)
  · exact (onCreate_attests ids _ _).verdict op rfl rfl (by decide)
  · exact (onWrite_moving posix op).verdict op rfl rfl
  · exact (Endures.andThen (Gentle.check _ _) fun _ => releaseHandle_endures _).verdict ids op rfl rfl
      (by decide)
  · exact (onOpen_endures _ _).verdict ids op rfl rfl (by decide)
  · exact (onRead_moving posix op).verdict op rfl rfl
  · exact (onOpendir_endures _).verdict ids op rfl rfl (by decide)
  · exact (onReaddir_endures _).verdict listed op rfl rfl (by decide)
  · exact (Endures.andThen (Gentle.check _ _) fun _ => releaseHandle_endures _).verdict ids op rfl rfl
      (by decide)
  · exact (onMkdir_attests ids _ _).verdict op rfl rfl (by decide)
  · exact (unlinkOrRmdir_endures _ _ _).verdict ids op rfl rfl (by decide)
  · exact (unlinkOrRmdir_endures _ _ _).verdict ids op rfl rfl (by decide)
  · exact (onRename_endures _ _ _).verdict ids op rfl rfl (by decide)
  · exact (onLink_attests _ _).verdict op rfl rfl (by decide)
  · exact (onSymlink_attests ids _ _).verdict op rfl rfl (by decide)
  · exact (onSetattr_attests _ _).verdict op rfl rfl (by decide)
  · exact framed (Reply.data_framed (by decide)) op rfl rfl (by decide)
  iterate 4 exact framed Reply.ack_framed op rfl rfl (by decide)
  · exact (Endures.exit _).verdict ids op rfl rfl (by decide)

theorem statsSince_note (t : State σ) (reply : Reply) :
    statsSince host s (t.note (.reply reply)) = statsSince host s t := by
  unfold statsSince State.note
  rw [List.drop_append, host.replay_append]
  rcases Nat.eq_zero_or_pos (s.log.length - t.log.length) with none_ | some_
  · rw [none_, List.drop_zero]
    exact List.append_nil _
  · have nothing : [Event.reply reply].drop (s.log.length - t.log.length) = [] :=
      List.drop_eq_nil_of_le some_
    rw [nothing]
    exact List.append_nil _

theorem Fine.note (reply : Reply) :
    Fine host s request (t.note (.reply reply)) ↔ Fine host s request t := by
  constructor
  · rintro ⟨offsets, stats⟩
    exact ⟨offsets, fun kind => statsSince_note t reply ▸ stats kind⟩
  · rintro ⟨offsets, stats⟩
    exact ⟨offsets, fun kind => (statsSince_note t reply).symm ▸ stats kind⟩

theorem dispatch_iff (posix : host.Posix) (ids : HasIds s) (listed : Listed s)
    (whole : fuseInHeaderSize ≤ request.frame.length) :
    Answered request (s.dispatch host request) ↔ Fine host s request (s.serve host request) := by
  have verdict := (handle_verdict posix ids listed : Verdict host s request _) s rfl
  unfold Answered State.dispatch State.serve
  rw [if_neg (show ¬ request.frame.length < fuseInHeaderSize from Nat.not_lt.mpr whole)]
  match ran : handle host request.order (readInHeader request.frame) (bodyOf request.frame) s with
  | (.ok reply, t) =>
    rw [ran] at verdict
    obtain ⟨replied, fine⟩ := verdict
    refine iff_of_true ?_ ((Fine.note reply).mpr fine)
    split at replied
    · rw [if_pos ‹_›]
      exact congrArg (Reply.send · (readInHeader request.frame).unique) replied
    · rw [if_neg ‹_›]
      exact replied.send _
  | (.error (.error errno), t) =>
    rw [ran] at verdict
    obtain ⟨speaks, fine⟩ := verdict
    refine iff_of_true ?_ ((Fine.note (.error errno)).mpr fine)
    rw [if_neg (by rw [speaks]; exact nofun)]
    exact (Reply.error_framed errno).send _
  | (.error .trap, t) =>
    rw [ran] at verdict
    obtain ⟨speaks, bad⟩ := verdict
    refine iff_of_false ?_ fun fine => bad ⟨fine.offsets, fine.stats⟩
    rw [if_neg (by rw [speaks]; exact nofun)]
    exact fun ⟨_, impossible, _⟩ => nomatch impossible

end Dispatch

theorem Listed.put {s : State σ} (listed : Listed s) (entry : OpenEntry)
    (packed : ∀ nodeid entries, entry = .dir nodeid entries → Packed entries) :
    Listed (s.putHandle entry) := by
  intro fh nodeid entries found
  by_cases here : fh = s.nextHandle
  · rw [here] at found
    exact packed _ _ (Option.some.inj ((AList.lookup_insert _).symm.trans found))
  · exact listed fh nodeid entries ((AList.lookup_insert_ne here).symm.trans found)

theorem Listed.release {s : State σ} (listed : Listed s) (fh : Nat) :
    Listed (s.setHandles (s.handles.erase fh)) := by
  intro other nodeid entries found
  by_cases here : other = fh
  · rw [here] at found
    exact nomatch (AList.lookup_erase _ _).symm.trans found
  · exact listed other nodeid entries ((AList.lookup_erase_ne here).symm.trans found)

theorem Move.listed {G : Bytes → Prop} {T : Prop} {s : State σ} {issued : List Nat} (listed : Listed s)
    (move : Move G T s issued t) : Listed t := by
  cases move with
  | put entry _ packed => exact listed.put entry packed
  | release fh => exact listed.release fh
  | call | bind | unindex | forget | retarget | rename => exact listed

theorem serve_listed (host : Host σ) {s : State σ} (request : Request) (listed : Listed s) :
    Listed (s.serve host request) := by
  have moved := serve_moves (G := fun _ => True) (T := True) host anyPath_closed (s := s) request
    (fun _ _ _ => trivial) fun _ => trivial
  rcases moved with ⟨reply, t, moves, served⟩ | ⟨issued, t, moves, served⟩
  · have kept : Listed t := moves.keep (fun _ _ _ => Move.listed) listed
    rw [served]
    exact kept
  · have kept : Listed t := moves.keep (fun _ _ _ => Move.listed) listed
    rw [served]
    exact kept

theorem exec_listed (host : Host σ) {rootAbs : Bytes} {modeRw : Bool} {h : σ} (requests : List Request)
    {s : State σ} (run : State.exec host (State.init rootAbs modeRw h) requests = some s) : Listed s := by
  have start : Listed (State.init rootAbs modeRw h) := nofun
  have kept : ∀ s request t, Listed s → s.step host request = some t → Listed t := by
    intro s request t listed moved
    rw [step_serve host moved]
    exact serve_listed host request listed
  exact Run.exec_invariant kept requests start run

/-- At every state that requests reach, a request is answered exactly when no offset of it
that reaches the host is 2^63 or more, and the stat its reply is made of fits an attribute. -/
theorem dispatch_answers_iff {host : Host σ} (posix : host.Posix) (rootAbs : Bytes) (modeRw : Bool) (h : σ)
    (requests : List Request) (s : State σ)
    (run : State.exec host (State.init rootAbs modeRw h) requests = some s) (ids : HasIds s)
    (request : Request) (whole : fuseInHeaderSize ≤ request.frame.length) :
    Answered request (s.dispatch host request) ↔ Fine host s request (s.serve host request) :=
  dispatch_iff posix ids (exec_listed host requests run) whole

/-- A host on which every path and every descriptor has this stat. -/
def Host.holding (st : Stat) : Host Unit where
  call s c := match c with
    | .lstat _ | .fstat _ => (.ok st, s)
    | .pwrite _ data offset => (if offset + data.length < 2 ^ 63 then .ok data.length else .error 27, s)
    | c => Host.idle.call s c

theorem holding_posix (st : Stat) : (Host.holding st).Posix where
  pread := by
    intro h fd size offset bytes answered
    cases (Except.ok.inj answered : [] = bytes)
    decide
  pwrite := by
    intro h fd data offset n answered
    by_cases inside : offset + data.length < 2 ^ 63
    · cases (Except.ok.inj ((if_pos inside).symm.trans answered) : data.length = n)
      exact ⟨Nat.le_refl _, inside⟩
    · exact nomatch (if_neg inside).symm.trans answered

/-- A GETATTR of the root after a LOOKUP of `a`. -/
theorem dispatch_answers_getattr :
    ∃ s, State.exec (Host.holding {}) (State.init [slash] true ()) [.of 1 1 [0x61, 0] [1]] = some s ∧
      Answered (.of 3 1 [] [1, 2]) (s.dispatch (Host.holding {}) (.of 3 1 [] [1, 2])) := by
  have ran : (State.exec (Host.holding {}) (State.init [slash] true ()) [.of 1 1 [0x61, 0] [1]]).any
    (fun s =>
      s.table.nextInode = 3 ∧ s.nextHandle = 1 ∧
        statsSince (Host.holding {}) s (s.serve (Host.holding {}) (.of 3 1 [] [1, 2])) = [{}]) = true := by
    decide +kernel
  obtain ⟨s, run, next⟩ := (Option.any_eq_true _ _).mp ran
  obtain ⟨inode, handle, stats⟩ := of_decide_eq_true next
  refine ⟨s, run, (dispatch_answers_iff (holding_posix {}) [slash] true () _ s run ⟨?_, ?_⟩
    (.of 3 1 [] [1, 2])
    (by decide)).mpr ⟨.other (by decide +kernel) (by decide +kernel), fun _ st listed => ?_⟩⟩
  · rw [inode]
    decide
  · rw [handle]
    decide
  · rw [stats] at listed
    cases List.mem_singleton.mp listed
    constructor <;> decide

def readAt (offset : Nat) : Request := .of 15 1 (le 8 1 ++ le 8 offset ++ le 4 1 ++ List.replicate 12 0) [1]

/-- A READ of an open handle whose offset is negative for the host, and a GETATTR of a root
that was last written a second before 1970. -/
theorem dispatch_traps :
    (∃ s, State.exec (Host.holding {}) (State.init [slash] true ()) [.of 14 1 (le 8 0) [1]] = some s ∧
      ¬ Answered (readAt (2 ^ 63)) (s.dispatch (Host.holding {}) (readAt (2 ^ 63)))) ∧
    ¬ Answered (.of 3 1 [] [1])
      ((State.init [slash] true ()).dispatch (Host.holding { mtime := -1 }) (.of 3 1 [] [1])) := by
  have unanswered : ∀ request, request.op.silent = false → ¬ Answered request none := by
    intro request speaks answered
    unfold Answered at answered
    rw [if_neg (by rw [speaks]; exact nofun)] at answered
    obtain ⟨frame, impossible, -⟩ := answered
    exact nomatch impossible
  constructor
  · have ran : (State.exec (Host.holding {}) (State.init [slash] true ()) [.of 14 1 (le 8 0) [1]]).any
        (fun s => s.dispatch (Host.holding {}) (readAt (2 ^ 63)) = none) = true := by
      decide +kernel
    obtain ⟨s, run, stopped⟩ := (Option.any_eq_true _ _).mp ran
    refine ⟨s, run, ?_⟩
    rw [of_decide_eq_true stopped]
    exact unanswered _ (by decide +kernel)
  · have stopped : (State.init [slash] true ()).dispatch (Host.holding { mtime := -1 }) (.of 3 1 [] [1]) =
        none := by
      decide +kernel
    rw [stopped]
    exact unanswered _ (by decide +kernel)

end Machinen.Mount
