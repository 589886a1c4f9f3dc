import Machinen.Lib.Extents

/-! The stream that carries extents: offset, length and bytes, one after another.
A reader differs from another in its checks, its errors and how it writes; what
the encoder produced is read back by each of them as the same overlay. -/
namespace Machinen.Extents

open Bytes

universe u

def encodeExtents (image : Bytes) (es : List Extent) : Bytes :=
  es.flatMap fun e => le 8 e.start ++ (le 8 e.len ++ slice image e.start e.len)

/-- `check off len left` is the reader's complaint about one extent header when
`left` bytes of the stream follow it. -/
structure Reader (ε : Type u) where
  truncated : ε
  check : Nat → Nat → Nat → Option ε
  write : Bytes → Nat → Bytes → Bytes

def applyExtents {ε : Type u} (reader : Reader ε) (body dest : Bytes) : Except ε Bytes :=
  if body = [] then .ok dest
  else if body.length < 16 then .error reader.truncated
  else
    let off := toNat (body.take 8)
    let len := toNat ((body.drop 8).take 8)
    let data := body.drop 16
    match reader.check off len data.length with
    | some complaint => .error complaint
    | none => applyExtents reader (data.drop len) (reader.write dest off (data.take len))
termination_by body.length
decreasing_by
  simp only [List.length_drop]
  omega

theorem applyExtents_nil {ε : Type u} (reader : Reader ε) (dest : Bytes) :
    applyExtents reader [] dest = .ok dest := by
  rw [applyExtents, if_pos rfl]

theorem applyExtents_short {ε : Type u} (reader : Reader ε) {body : Bytes} {c : Nat}
    (more : c < body.length) (short : body.length - c < 16) (dest : Bytes) :
    applyExtents reader (body.drop c) dest = .error reader.truncated := by
  have left : (body.drop c).length = body.length - c := List.length_drop
  rw [applyExtents, if_neg (List.ne_nil_of_length_pos (by omega)), if_pos (by omega)]

theorem applyExtents_at {ε : Type u} (reader : Reader ε) {body : Bytes} {c : Nat}
    (long : 16 ≤ body.length - c) (dest : Bytes) :
    applyExtents reader (body.drop c) dest =
      match reader.check (toNat (slice body c 8)) (toNat (slice body (c + 8) 8))
        (body.length - (c + 16)) with
      | some complaint => .error complaint
      | none => applyExtents reader (body.drop (c + 16 + toNat (slice body (c + 8) 8)))
          (reader.write dest (toNat (slice body c 8))
            (slice body (c + 16) (toNat (slice body (c + 8) 8)))) := by
  have left : (body.drop c).length = body.length - c := List.length_drop
  rw [applyExtents, if_neg (List.ne_nil_of_length_pos (by omega)), if_neg (by omega)]
  simp only [List.drop_drop, List.length_drop, Nat.add_assoc]
  rfl

def overlay (write : Bytes → Nat → Bytes → Bytes) (image : Bytes) (es : List Extent)
    (dest : Bytes) : Bytes :=
  es.foldl (fun d e => write d e.start (slice image e.start e.len)) dest

/-- Extents that the first `size` bytes of an image hold. -/
def Within (size : Nat) (es : List Extent) : Prop := ∀ e ∈ es, e.start ≤ e.stop ∧ e.stop ≤ size

theorem Within.tail {size : Nat} {e : Extent} {es : List Extent} (within : Within size (e :: es)) :
    Within size es := fun x member => within x (List.mem_cons_of_mem _ member)

theorem applyExtents_encode {ε : Type u} (reader : Reader ε) (image : Bytes) (es : List Extent)
    (dest : Bytes) {size : Nat} (within : Within size es) (held : size ≤ image.length)
    (word : size < 2 ^ 64)
    (accepts : ∀ e ∈ es, ∀ left, e.len ≤ left → reader.check e.start e.len left = none) :
    applyExtents reader (encodeExtents image es) dest = .ok (overlay reader.write image es dest) := by
  induction es generalizing dest with
  | nil =>
    rw [applyExtents]
    rfl
  | cons e es ih =>
    have bounds := within e (List.mem_cons_self)
    have len_le : e.len ≤ size := by unfold Extent.len; omega
    have fits : e.start + e.len ≤ image.length := by unfold Extent.len; omega
    have body_eq : encodeExtents image (e :: es) =
        le 8 e.start ++ (le 8 e.len ++ (slice image e.start e.len ++ encodeExtents image es)) := by
      simp only [encodeExtents, List.flatMap_cons, List.append_assoc]
    have data_length := slice_length image e.start e.len fits
    have read_off : toNat ((encodeExtents image (e :: es)).take 8) = e.start := by
      rw [body_eq, List.take_left' (le_length 8 _)]
      exact toNat_le 8 _ (by omega)
    have after_off : (encodeExtents image (e :: es)).drop 8 =
        le 8 e.len ++ (slice image e.start e.len ++ encodeExtents image es) := by
      rw [body_eq, List.drop_left' (le_length 8 _)]
    have read_len : toNat (((encodeExtents image (e :: es)).drop 8).take 8) = e.len := by
      rw [after_off, List.take_left' (le_length 8 _)]
      exact toNat_le 8 _ (by omega)
    have data_eq : (encodeExtents image (e :: es)).drop 16 =
        slice image e.start e.len ++ encodeExtents image es := by
      rw [show 16 = 8 + 8 from rfl, ← List.drop_drop, after_off, List.drop_left' (le_length 8 _)]
    have long : ¬ (encodeExtents image (e :: es)).length < 16 := by
      simp only [body_eq, List.length_append, le_length]
      omega
    have accepted := accepts e List.mem_cons_self
      ((slice image e.start e.len ++ encodeExtents image es).length)
      (by rw [List.length_append, data_length]; omega)
    rw [applyExtents, if_neg (fun empty => long (by rw [empty]; decide)), if_neg long]
    simp only [read_off, read_len, data_eq, accepted]
    rw [List.drop_left' data_length, List.take_left' data_length]
    exact ih _ within.tail (fun x member => accepts x (List.mem_cons_of_mem _ member))

def WritesInPlace (write : Bytes → Nat → Bytes → Bytes) : Prop :=
  ∀ dest off ys, off + ys.length ≤ dest.length → write dest off ys = store dest off ys

theorem overlay_spec {write : Bytes → Nat → Bytes → Bytes} (in_place : WritesInPlace write)
    (image : Bytes) (es : List Extent) (dest : Bytes) {size : Nat} (within : Within size es)
    (held : size ≤ image.length) (room : size ≤ dest.length) :
    (overlay write image es dest).length = dest.length ∧
      ∀ i, (overlay write image es dest)[i]? = if Covered es i then image[i]? else dest[i]? := by
  induction es generalizing dest with
  | nil => exact ⟨rfl, fun i => by simp [overlay, Covered]⟩
  | cons e es ih =>
    have bounds := within e List.mem_cons_self
    have stop_eq : e.start + e.len = e.stop := by unfold Extent.len; omega
    have data_length := slice_length image e.start e.len (by omega)
    have written := in_place dest e.start (slice image e.start e.len) (by omega)
    have same_length : (write dest e.start (slice image e.start e.len)).length = dest.length := by
      rw [written, store_length]
    obtain ⟨length_eq, bytes⟩ := ih (write dest e.start (slice image e.start e.len)) within.tail
      (by omega)
    refine ⟨by simpa only [overlay, List.foldl_cons, same_length] using length_eq, ?_⟩
    intro i
    have later := bytes i
    simp only [overlay, List.foldl_cons] at later ⊢
    have split_cover := covered_cons e es i
    rw [later]
    by_cases covered : Covered es i
    · rw [if_pos covered, if_pos (split_cover.mpr (.inr covered))]
    · rw [if_neg covered, written]
      by_cases here : e.start ≤ i ∧ i < e.stop
      · rw [if_pos (split_cover.mpr (.inl here)), store_inside _ _ _ _ (by omega) here.1 (by omega),
          slice_getElem?, if_pos (by omega), Nat.add_sub_cancel' here.1]
      · rw [if_neg (fun cover => (split_cover.mp cover).elim here covered),
          store_outside _ _ _ _ (by omega)]

section Delta

variable {block size : Nat} {dirty : Nat → Bool}

end Delta

end Machinen.Extents
