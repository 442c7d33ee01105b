import Mathlib.Data.List.Induction
import Mathlib.Data.Nat.Size
import Mathlib.Tactic.Ring

/-!
# Codecs for bytes

A `Codec` writes a value as bytes, if it can, and reads it off the front of
bytes, if it is there; it carries the proof that what was written is read
back and the bytes after it are left (`read_write`). Codecs are built from
codecs: one after the other (`seq`), through a change of value (`via`), within
a range (`within`), or perhaps there (`nullable`).

The rest are the codecs of the Avro binary encoding: integers in groups of
seven bits, signed ones zigzagged, bytes after their length, texts in UTF-8,
and integers of any size in two's complement.
-/

namespace Wire

variable {α β : Type}

structure Codec (α : Type) where
  write : α → Option (List UInt8)
  read : List UInt8 → Option (α × List UInt8)
  read_write : ∀ {a bs}, write a = some bs → ∀ rest, read (bs ++ rest) = some (a, rest)

namespace Codec

/-- One after the other. -/
def seq (first : Codec α) (second : Codec β) : Codec (α × β) where
  write p := do some ((← first.write p.1) ++ (← second.write p.2))
  read bs := do
    let (a, bs) ← first.read bs
    let (b, bs) ← second.read bs
    some ((a, b), bs)
  read_write := by
    intro p bs h rest
    rcases Option.bind_eq_some_iff.mp h with ⟨front, hfront, h⟩
    rcases Option.bind_eq_some_iff.mp h with ⟨back, hback, h⟩
    cases h
    rw [List.append_assoc, first.read_write hfront]
    show second.read (back ++ rest) >>= _ = _
    rw [second.read_write hback]
    rfl

/-- Another value in its place, from which it can be told. -/
def via (c : Codec α) (into : β → α) (out : α → Option β) (hout : ∀ b, out (into b) = some b) :
    Codec β where
  write b := c.write (into b)
  read bs := do
    let (a, bs) ← c.read bs
    some (← out a, bs)
  read_write := by
    intro b bs h rest
    rw [c.read_write h]
    show out (into b) >>= _ = _
    rw [hout]
    rfl

/-- Only values that meet the condition are written. -/
def within (c : Codec α) (p : α → Prop) [DecidablePred p] : Codec α where
  write a := if p a then c.write a else none
  read := c.read
  read_write := by
    intro a bs h rest
    split at h
    · exact c.read_write h rest
    · cases h

theorem write_seq {first : Codec α} {second : Codec β} {a : α} {b : β} {front back : List UInt8}
    (hfront : first.write a = some front) (hback : second.write b = some back) :
    (first.seq second).write (a, b) = some (front ++ back) := by
  show first.write a >>= (fun x => second.write b >>= fun y => some (x ++ y)) = _
  rw [hfront, hback]
  rfl

theorem write_within {c : Codec α} {p : α → Prop} [DecidablePred p] {a : α} (h : p a) :
    (c.within p).write a = c.write a := if_pos h

end Codec

/-! ## Integers -/

/-- Seven bits a byte, the lowest first; every byte but the last one is marked. -/
def writeNat (n : Nat) : List UInt8 :=
  if n < 128 then [UInt8.ofNat n] else UInt8.ofNat (n % 128 + 128) :: writeNat (n / 128)
termination_by n
decreasing_by omega

def readNat : List UInt8 → Option (Nat × List UInt8)
  | [] => none
  | b :: bs =>
      if b.toNat < 128 then some (b.toNat, bs)
      else do
        let (n, bs) ← readNat bs
        some (b.toNat - 128 + 128 * n, bs)

theorem toNat_ofNat {n : Nat} (h : n < 256) : (UInt8.ofNat n).toNat = n := by
  rw [UInt8.toNat_ofNat']
  exact Nat.mod_eq_of_lt h

theorem readNat_writeNat (n : Nat) (rest : List UInt8) :
    readNat (writeNat n ++ rest) = some (n, rest) := by
  induction n using Nat.strongRecOn with
  | ind n ih =>
      rw [writeNat]
      split
      · rename_i hsmall
        rw [List.singleton_append, readNat, toNat_ofNat (by omega), if_pos hsmall]
      · rename_i hlarge
        rw [List.cons_append, readNat, toNat_ofNat (by omega), if_neg (by omega),
          ih (n / 128) (by omega)]
        have hn : n % 128 + 128 - 128 + 128 * (n / 128) = n := by omega
        show some (n % 128 + 128 - 128 + 128 * (n / 128), rest) = some (n, rest)
        rw [hn]

/-- A number that is not negative. -/
def nat : Codec Nat where
  write n := some (writeNat n)
  read := readNat
  read_write := by
    rintro n _ ⟨⟩ rest
    exact readNat_writeNat n rest

/-- Small numbers of either sign next to each other. -/
def zigzag (n : Int) : Nat := if 0 ≤ n then (2 * n).toNat else (-2 * n - 1).toNat

def unzigzag (n : Nat) : Int := if n % 2 = 0 then n / 2 else -((n : Int) / 2) - 1

theorem unzigzag_zigzag (n : Int) : unzigzag (zigzag n) = n := by
  unfold zigzag unzigzag
  split <;> split <;> omega

/-- An integer. -/
def int : Codec Int := nat.via zigzag (fun n => some (unzigzag n)) fun n => by
  rw [unzigzag_zigzag]

/-- An integer of so many bits, with its sign. -/
def Fits (bits : Nat) (n : Int) : Prop := -2 ^ (bits - 1) ≤ n ∧ n < 2 ^ (bits - 1)

instance (bits : Nat) : DecidablePred (Fits bits) := fun n =>
  inferInstanceAs (Decidable (-2 ^ (bits - 1) ≤ n ∧ n < 2 ^ (bits - 1)))

def signed (bits : Nat) : Codec Int := int.within (Fits bits)

/-! ## Bytes and texts -/

/-- The length, and the bytes. -/
def bytes : Codec (List UInt8) where
  write bs := do some ((← int.write bs.length) ++ bs)
  read bs := do
    let (n, bs) ← int.read bs
    if 0 ≤ n ∧ n ≤ bs.length then some (bs.take n.toNat, bs.drop n.toNat) else none
  read_write := by
    intro bs written h rest
    rcases Option.bind_eq_some_iff.mp h with ⟨front, hfront, h⟩
    cases h
    rw [List.append_assoc, int.read_write hfront]
    show (if 0 ≤ (bs.length : Int) ∧ (bs.length : Int) ≤ (bs ++ rest).length then _ else _) = _
    rw [if_pos ⟨by omega, by rw [List.length_append]; omega⟩]
    simp

theorem fromUTF8?_toByteArray (s : String) :
    String.fromUTF8? ⟨s.toByteArray.data.toList.toArray⟩ = some s := by
  unfold String.fromUTF8?
  rw [dif_pos s.isValidUTF8]
  rfl

/-- A text, in UTF-8. -/
def string : Codec String := bytes.via (fun s => s.toByteArray.data.toList)
  (fun bs => String.fromUTF8? ⟨bs.toArray⟩) fromUTF8?_toByteArray

/-- Nothing, or a value: the branch first. -/
def nullable (c : Codec α) : Codec (Option α) where
  write
    | none => int.write 0
    | some a => do some ((← int.write 1) ++ (← c.write a))
  read bs := do
    let (branch, bs) ← int.read bs
    if branch = 0 then some (none, bs)
    else if branch = 1 then do
      let (a, bs) ← c.read bs
      some (some a, bs)
    else none
  read_write := by
    intro a bs h rest
    cases a with
    | none =>
        rw [int.read_write h]
        rfl
    | some a =>
        rcases Option.bind_eq_some_iff.mp h with ⟨front, hfront, h⟩
        rcases Option.bind_eq_some_iff.mp h with ⟨back, hback, h⟩
        cases h
        rw [List.append_assoc, int.read_write hfront]
        show c.read (back ++ rest) >>= _ = _
        rw [c.read_write hback]
        rfl

/-! ## Big-endian integers -/

/-- The lowest bytes of a number, the highest of them first. -/
def bigEndian : Nat → Nat → List UInt8
  | 0, _ => []
  | count + 1, n => bigEndian count (n / 256) ++ [UInt8.ofNat (n % 256)]

def ofBigEndian (bs : List UInt8) : Nat := bs.foldl (fun n b => n * 256 + b.toNat) 0

theorem length_bigEndian (count n : Nat) : (bigEndian count n).length = count := by
  induction count generalizing n with
  | zero => rfl
  | succ count ih => rw [bigEndian, List.length_append, ih]; rfl

theorem ofBigEndian_concat (bs : List UInt8) (b : UInt8) :
    ofBigEndian (bs ++ [b]) = ofBigEndian bs * 256 + b.toNat := by
  unfold ofBigEndian
  rw [List.foldl_append]
  rfl

theorem ofBigEndian_bigEndian (count n : Nat) : ofBigEndian (bigEndian count n) = n % 256 ^ count := by
  induction count generalizing n with
  | zero => rw [pow_zero, Nat.mod_one]; rfl
  | succ count ih =>
      have hlast : ofBigEndian (bigEndian (count + 1) n) =
          ofBigEndian (bigEndian count (n / 256)) * 256 + (UInt8.ofNat (n % 256)).toNat :=
        ofBigEndian_concat _ _
      rw [hlast, ih, toNat_ofNat (Nat.mod_lt _ (by omega)), pow_succ, Nat.mul_comm (256 ^ count) 256,
        Nat.mod_mul]
      omega

/-- Bytes are told by the number they come to, and how many they are. -/
theorem bigEndian_ofBigEndian (bs : List UInt8) : bigEndian bs.length (ofBigEndian bs) = bs := by
  induction bs using List.reverseRecOn with
  | nil => rfl
  | append_singleton bs b ih =>
      have hb : b.toNat < 256 := b.toNat_lt
      rw [ofBigEndian_concat, List.length_append, List.length_singleton, bigEndian,
        show (ofBigEndian bs * 256 + b.toNat) / 256 = ofBigEndian bs by omega,
        show (ofBigEndian bs * 256 + b.toNat) % 256 = b.toNat by omega, ih, UInt8.ofNat_toNat]

theorem ofBigEndian_lt (bs : List UInt8) : ofBigEndian bs < 256 ^ bs.length := by
  induction bs using List.reverseRecOn with
  | nil => exact Nat.one_pos
  | append_singleton bs b ih =>
      have hb : b.toNat < 256 := b.toNat_lt
      rw [ofBigEndian_concat, List.length_append, List.length_singleton, pow_succ]
      omega

/-- How many bytes a signed integer takes: its magnitude and a sign bit. -/
def bytesRequired (n : Int) : Nat := (n.natAbs.size + 8) / 8

/-- Two's complement, the highest byte first. -/
def twosComplement (n : Int) : List UInt8 :=
  bigEndian (bytesRequired n) (n % 256 ^ bytesRequired n).toNat

def ofTwosComplement (bs : List UInt8) : Int :=
  let n := ofBigEndian bs
  if 256 ^ bs.length ≤ 2 * n then (n : Int) - 256 ^ bs.length else n

theorem ofTwosComplement_twosComplement (n : Int) : ofTwosComplement (twosComplement n) = n := by
  unfold ofTwosComplement twosComplement
  rw [length_bigEndian, ofBigEndian_bigEndian]
  -- the magnitude is below half of what the bytes hold
  have hbound : 2 * n.natAbs < 256 ^ bytesRequired n := by
    have hsize : n.natAbs < 2 ^ n.natAbs.size := Nat.lt_size_self _
    have hbits : n.natAbs.size + 1 ≤ 8 * bytesRequired n := by
      unfold bytesRequired
      omega
    have hpow : 2 ^ (n.natAbs.size + 1) ≤ 2 ^ (8 * bytesRequired n) :=
      Nat.pow_le_pow_right (by omega) hbits
    rw [Nat.pow_mul, show (2 : Nat) ^ 8 = 256 from rfl] at hpow
    have hsucc : 2 ^ (n.natAbs.size + 1) = 2 * 2 ^ n.natAbs.size := by ring
    omega
  have hcast : ((256 ^ bytesRequired n : Nat) : Int) = 256 ^ bytesRequired n := by push_cast; rfl
  rw [← hcast]
  generalize 256 ^ bytesRequired n = size at hbound
  have hmod : (n % (size : Int)).toNat % size = (n % (size : Int)).toNat := by
    refine Nat.mod_eq_of_lt ?_
    have hlt := Int.emod_lt_of_pos n (show (0 : Int) < size by omega)
    have hle := Int.emod_nonneg n (show (size : Int) ≠ 0 by omega)
    omega
  rw [hmod]
  rcases lt_or_ge n 0 with hneg | hpos
  · have hwrap : n % (size : Int) = n + size := by
      rw [← Int.add_emod_right]
      exact Int.emod_eq_of_lt (by omega) (by omega)
    rw [hwrap]
    simp only
    rw [if_pos (by omega)]
    omega
  · have hsame : n % (size : Int) = n := Int.emod_eq_of_lt hpos (by omega)
    rw [hsame]
    simp only
    rw [if_neg (by omega)]
    omega

/-- An integer of any size, as bytes in two's complement. -/
def bigint : Codec Int := bytes.via twosComplement (fun bs => some (ofTwosComplement bs)) fun n => by
  rw [ofTwosComplement_twosComplement]

/-! ## What is always written -/

/-- Every value is written. -/
def Total (c : Codec α) : Prop := ∀ a, ∃ bs, c.write a = some bs

theorem total_int : Total int := fun _ => ⟨_, rfl⟩

theorem total_bytes : Total bytes := fun _ => ⟨_, rfl⟩

theorem total_string : Total string := fun _ => total_bytes _

theorem total_bigint : Total bigint := fun _ => total_bytes _

/-- An integer in range is written. -/
theorem write_signed {bits : Nat} {n : Int} (h : Fits bits n) :
    ∃ bs, (signed bits).write n = some bs :=
  ⟨_, Codec.write_within h⟩

/-- What is perhaps there is written if it is when it is. -/
theorem write_nullable {c : Codec α} {a : Option α} (h : ∀ b ∈ a, ∃ bs, c.write b = some bs) :
    ∃ bs, (nullable c).write a = some bs := by
  cases a with
  | none => exact total_int 0
  | some a =>
      rcases h a rfl with ⟨bs, hbs⟩
      refine ⟨writeNat (zigzag 1) ++ bs, ?_⟩
      show (some (writeNat (zigzag 1)) >>= fun x => c.write a >>= fun y => some (x ++ y)) = _
      rw [hbs]
      rfl

end Wire
