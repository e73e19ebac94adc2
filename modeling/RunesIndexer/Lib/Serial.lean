import Mathlib.Data.List.Basic
import Mathlib.Tactic.Ring

/-! # Binary formats

    Values written as bytes one after the other, and readers that take them off again.
    `Reads r bytes a` says that the reader `r` takes exactly `bytes` and returns `a`,
    whatever follows. It has a rule for sequencing, so that the reader of a record is
    proved field by field.

    The formats are numbers of a fixed width (little-endian), flags, optional values,
    byte strings and texts with their length in front, characters in UTF-8, pairs, and
    sequences with their length in front.
-/

namespace Serial

/-- A reader takes bytes from the front, or fails. -/
abbrev Reader (α : Type) : Type := StateT (List UInt8) Option α

/-- The reader takes `bytes` and returns `a`. -/
def Reads {α : Type} (r : Reader α) (bytes : List UInt8) (a : α) : Prop :=
  ∀ rest, r.run (bytes ++ rest) = some (a, rest)

variable {α β : Type}

namespace Reads

theorem pure (a : α) : Reads (Pure.pure a) [] a := fun _ => rfl

theorem bind {r : Reader α} {f : α → Reader β} {bytes bytes' : List UInt8} {a : α} {b : β}
    (h : Reads r bytes a) (hf : Reads (f a) bytes' b) : Reads (r >>= f) (bytes ++ bytes') b := by
  intro rest
  rw [List.append_assoc, StateT.run_bind, h]
  exact hf rest

/-- The last reader of a sequence. -/
theorem last {r : Reader α} {f : α → β} {bytes : List UInt8} {a : α} (h : Reads r bytes a) :
    Reads (r >>= fun a => Pure.pure (f a)) bytes (f a) := by
  intro rest
  rw [StateT.run_bind, h]
  rfl

/-- A reader that was started on the whole input. -/
theorem run {r : Reader α} {bytes : List UInt8} {a : α} (h : Reads r bytes a) :
    r.run bytes = some (a, []) := by
  have := h []
  rwa [List.append_nil] at this

end Reads

/-! ### Single bytes -/

def readByte : Reader UInt8 := fun bytes =>
  match bytes with
  | [] => none
  | b :: rest => some (b, rest)

theorem reads_byte (b : UInt8) : Reads readByte [b] b := fun _ => rfl

/-- The next `n` bytes. -/
def readBytes (n : Nat) : Reader (List UInt8) := fun bytes =>
  if n ≤ bytes.length then some (bytes.take n, bytes.drop n) else none

theorem reads_bytes (bytes : List UInt8) : Reads (readBytes bytes.length) bytes bytes := by
  intro rest
  show (if bytes.length ≤ (bytes ++ rest).length then _ else none) = _
  rw [if_pos (by simp), List.take_left, List.drop_left]

/-! ### Numbers -/

/-- `n` in `w` bytes, the least significant one first. -/
def uint : Nat → Nat → List UInt8
  | 0, _ => []
  | w + 1, n => UInt8.ofNat (n % 256) :: uint w (n / 256)

@[simp] theorem length_uint (w n : Nat) : (uint w n).length = w := by
  induction w generalizing n with
  | zero => rfl
  | succ w ih => simp [uint, ih]

def readUInt : Nat → Reader Nat
  | 0 => Pure.pure 0
  | w + 1 => do
    let b ← readByte
    let n ← readUInt w
    return b.toNat + 256 * n

theorem reads_uint {w n : Nat} (h : n < 256 ^ w) : Reads (readUInt w) (uint w n) n := by
  induction w generalizing n with
  | zero =>
    obtain rfl : n = 0 := by simpa using h
    exact .pure 0
  | succ w ih =>
    have hdiv : n / 256 < 256 ^ w := Nat.div_lt_of_lt_mul (by rwa [Nat.pow_succ'] at h)
    have hbyte : (UInt8.ofNat (n % 256)).toNat = n % 256 :=
      UInt8.toNat_ofNat_of_lt' (Nat.mod_lt n (by decide))
    have hvalue : (UInt8.ofNat (n % 256)).toNat + 256 * (n / 256) = n := by
      rw [hbyte, Nat.mod_add_div]
    have hrest : Reads (readUInt w >>= fun m => Pure.pure ((UInt8.ofNat (n % 256)).toNat + 256 * m))
        (uint w (n / 256)) n := by
      have hlast := (ih hdiv).last (f := fun m => (UInt8.ofNat (n % 256)).toNat + 256 * m)
      rwa [hvalue] at hlast
    exact (reads_byte (UInt8.ofNat (n % 256))).bind hrest

/-! ### Flags and optional values -/

def bool (b : Bool) : List UInt8 := [if b then 1 else 0]

@[simp] theorem length_bool (b : Bool) : (bool b).length = 1 := rfl

/-- Only `0` and `1` are flags. -/
def readBool : Reader Bool := do
  let b ← readByte
  if b = 0 then return false
  else if b = 1 then return true
  else failure

theorem reads_bool (b : Bool) : Reads readBool (bool b) b := by
  intro rest
  cases b <;> rfl

/-- A flag, and the value if there is one. -/
def option (write : α → List UInt8) : Option α → List UInt8
  | none => [0]
  | some a => 1 :: write a

def readOption (r : Reader α) : Reader (Option α) := do
  let b ← readByte
  if b = 0 then return none
  else if b = 1 then do
    let a ← r
    return some a
  else failure

theorem reads_none (r : Reader α) : Reads (readOption r) [0] none := fun _ => rfl

theorem reads_some {r : Reader α} {bytes : List UInt8} {a : α} (h : Reads r bytes a) :
    Reads (readOption r) (1 :: bytes) (some a) :=
  (reads_byte 1).bind h.last

theorem reads_option {r : Reader α} {write : α → List UInt8} {o : Option α}
    (h : ∀ a, o = some a → Reads r (write a) a) : Reads (readOption r) (option write o) o := by
  cases o with
  | none => exact reads_none r
  | some a => exact reads_some (h a rfl)

theorem length_option_le {write : α → List UInt8} {o : Option α} {n : Nat}
    (h : ∀ a, o = some a → (write a).length ≤ n) : (option write o).length ≤ 1 + n := by
  cases o with
  | none => simp [option]
  | some a =>
    have := h a rfl
    simp only [option, List.length_cons]
    omega

/-! ### Byte strings -/

/-- The bytes with their number in front. -/
def bytes (l : List UInt8) : List UInt8 := uint 8 l.length ++ l

@[simp] theorem length_bytes (l : List UInt8) : (bytes l).length = 8 + l.length := by
  simp [bytes]

def readByteString : Reader (List UInt8) := do
  let n ← readUInt 8
  readBytes n

theorem reads_byteString {l : List UInt8} (h : l.length < 256 ^ 8) :
    Reads readByteString (bytes l) l :=
  (reads_uint h).bind (reads_bytes l)

/-! ### Characters and texts -/

/-- A character in UTF-8. -/
def char (c : Char) : List UInt8 := String.utf8EncodeChar c

theorem length_char_le (c : Char) : (char c).length ≤ 4 := by
  unfold char
  rw [String.length_utf8EncodeChar]
  exact c.utf8Size_le_four

def readChar : Reader Char := fun bytes =>
  (bytes.toByteArray.utf8DecodeChar? 0).map fun c => (c, bytes.drop c.utf8Size)

theorem reads_char (c : Char) : Reads readChar (char c) c := by
  intro rest
  have hdecode : (char c ++ rest).toByteArray.utf8DecodeChar? 0 = some c := by
    rw [List.toByteArray_append]
    exact ByteArray.utf8DecodeChar?_utf8EncodeChar_append
  have hlength : (char c).length = c.utf8Size := String.length_utf8EncodeChar c
  show ((char c ++ rest).toByteArray.utf8DecodeChar? 0).map _ = _
  rw [hdecode, Option.map_some, ← hlength, List.drop_left]

/-- The characters of a text one after the other. -/
def chars (text : List Char) : List UInt8 := text.flatMap char

theorem length_chars_le (t : List Char) : (chars t).length ≤ 4 * t.length := by
  induction t with
  | nil => simp [chars]
  | cons c t ih =>
    have hc := length_char_le c
    simp only [chars, List.flatMap_cons, List.length_append, List.length_cons] at ih ⊢
    omega

/-- A text with the number of its bytes in front. -/
def text (t : List Char) : List UInt8 := bytes (chars t)

/-- What the bytes of a text stand for, if they are UTF-8. -/
def decodeText (l : List UInt8) : Option (List Char) := l.toByteArray.utf8Decode?.map Array.toList

theorem decodeText_chars (t : List Char) : decodeText (chars t) = some t := by
  have hdecode : (chars t).toByteArray.utf8Decode? = some t.toArray := List.utf8Decode?_utf8Encode
  unfold decodeText
  rw [hdecode]
  rfl

def readText : Reader (List Char) := do
  let l ← readByteString
  liftM (decodeText l)

theorem reads_text {t : List Char} (h : (chars t).length < 256 ^ 8) :
    Reads readText (text t) t := by
  intro rest
  unfold readText text
  rw [StateT.run_bind, reads_byteString h]
  show (liftM (decodeText (chars t)) : Reader (List Char)).run rest = _
  rw [decodeText_chars]
  rfl

/-! ### Pairs and sequences -/

def pair (write : α → List UInt8) (write' : β → List UInt8) (e : α × β) : List UInt8 :=
  write e.1 ++ write' e.2

def readPair (r : Reader α) (r' : Reader β) : Reader (α × β) := do
  let a ← r
  let b ← r'
  return (a, b)

theorem reads_pair {r : Reader α} {r' : Reader β} {write : α → List UInt8}
    {write' : β → List UInt8} {e : α × β} (h : Reads r (write e.1) e.1)
    (h' : Reads r' (write' e.2) e.2) : Reads (readPair r r') (pair write write' e) e :=
  h.bind h'.last

/-- The values one after the other, with their number in front. -/
def list (write : α → List UInt8) (l : List α) : List UInt8 := uint 8 l.length ++ l.flatMap write

/-- The next `n` values. -/
def readMany (r : Reader α) : Nat → Reader (List α)
  | 0 => Pure.pure []
  | n + 1 => do
    let a ← r
    let l ← readMany r n
    return a :: l

/-- A list, unless it has `bound` elements or more. -/
def readList (bound : Nat) (r : Reader α) : Reader (List α) := do
  let n ← readUInt 8
  if n < bound then readMany r n else failure

theorem reads_many {r : Reader α} {write : α → List UInt8} {l : List α}
    (h : ∀ a ∈ l, Reads r (write a) a) : Reads (readMany r l.length) (l.flatMap write) l := by
  induction l with
  | nil => exact .pure []
  | cons a l ih =>
    have hrest := ih fun b hb => h b (List.mem_cons_of_mem _ hb)
    exact (h a List.mem_cons_self).bind hrest.last

theorem reads_list {r : Reader α} {write : α → List UInt8} {l : List α} {bound : Nat}
    (hlength : l.length < bound) (hbound : bound ≤ 256 ^ 8)
    (h : ∀ a ∈ l, Reads r (write a) a) : Reads (readList bound r) (list write l) l := by
  refine (reads_uint (Nat.lt_of_lt_of_le hlength hbound)).bind ?_
  rw [if_pos hlength]
  exact reads_many h

end Serial
