/-
The protobuf wire format, and when concatenated encodings can be told apart.

A message is written as the concatenation of its fields in field-number order;
a proto3 scalar with its default value is not written at all.  The writers here
(`varint`, `fieldVarint`, `fieldBytes`, `fieldMessage`, `fieldString`) produce
the deterministic encoding of the standard marshallers.  A `string` field must
hold valid UTF-8, so writing it can fail.

Uniqueness of decoding is stated without a decoder: a `PrefixCode` is an
encoding whose output can be cut off the front of a longer byte string in one
way only.

Main result: `varintFields_inj`.
-/
import Mathlib.Data.List.Basic
import Mathlib.Data.List.Lex
import Mathlib.Algebra.Order.Ring.Nat
import Mathlib.Tactic.Ring
import Mathlib.Tactic.Common

/-- Byte strings. -/
abbrev Bytes := List UInt8

/-- Bytes in their numerical order, so that byte strings are ordered as a store orders its
keys. -/
instance byteOrder : LinearOrder UInt8 where
  le_refl := UInt8.le_refl
  le_trans _ _ _ := UInt8.le_trans
  le_antisymm _ _ := UInt8.le_antisymm
  le_total := UInt8.le_total
  lt_iff_le_not_ge a b := by
    simp only [UInt8.le_iff_toNat_le, UInt8.lt_iff_toNat_lt]
    omega
  toDecidableLE := inferInstance
  toDecidableLT := inferInstance
  toDecidableEq := inferInstance

namespace Wire

open List

/-- The encoding `c` can be cut off the front of a byte string in one way only. -/
def PrefixCode {α : Type*} (c : α → Bytes) : Prop :=
  ∀ ⦃a b : α⦄ ⦃x y : Bytes⦄, c a ++ x = c b ++ y → a = b ∧ x = y

theorem PrefixCode.pair {α β : Type*} {c : α → Bytes} {d : β → Bytes}
    (hc : PrefixCode c) (hd : PrefixCode d) :
    PrefixCode (fun p : α × β => c p.1 ++ d p.2) := by
  rintro ⟨a, b⟩ ⟨a', b'⟩ x y h
  simp only [append_assoc] at h
  obtain ⟨rfl, hrest⟩ := hc h
  obtain ⟨rfl, hxy⟩ := hd hrest
  exact ⟨rfl, hxy⟩

theorem PrefixCode.comp {α β : Type*} {c : β → Bytes} (hc : PrefixCode c) {f : α → β}
    (hf : Function.Injective f) : PrefixCode (fun a => c (f a)) := by
  intro a b x y h
  obtain ⟨hab, hxy⟩ := hc h
  exact ⟨hf hab, hxy⟩

theorem PrefixCode.flatMap_inj {α : Type*} {c : α → Bytes} (hc : PrefixCode c)
    (hne : ∀ a, c a ≠ []) : ∀ {l l' : List α}, l.flatMap c = l'.flatMap c → l = l'
  | [], [], _ => rfl
  | [], b :: l', h => absurd (List.append_eq_nil_iff.mp h.symm).1 (hne b)
  | a :: l, [], h => absurd (List.append_eq_nil_iff.mp h).1 (hne a)
  | a :: l, b :: l', h => by
    obtain ⟨rfl, hrest⟩ := hc h
    rw [PrefixCode.flatMap_inj hc hne hrest]

/-- Base-128 digits, least significant first; every byte but the last has its
high bit set.  `fuel` bounds the number of digits. -/
def varintAux : ℕ → ℕ → Bytes
  | 0, n => [UInt8.ofNat n]
  | fuel + 1, n =>
    if n < 128 then [UInt8.ofNat n] else UInt8.ofNat (n % 128 + 128) :: varintAux fuel (n / 128)

/-- `protowire.AppendVarint`. -/
def varint (n : ℕ) : Bytes := varintAux n n

theorem varintAux_eq (fuel fuel' n : ℕ) (h : n ≤ fuel) (h' : n ≤ fuel') :
    varintAux fuel n = varintAux fuel' n := by
  induction fuel generalizing fuel' n with
  | zero =>
    obtain rfl : n = 0 := by omega
    cases fuel' <;> simp [varintAux]
  | succ _ ih =>
    rcases fuel' with _ | fuel'
    · obtain rfl : n = 0 := by omega
      simp [varintAux]
    simp only [varintAux]
    by_cases hn : n < 128
    · rw [if_pos hn, if_pos hn]
    · rw [if_neg hn, if_neg hn, ih fuel' (n / 128) (by omega) (by omega)]

theorem varint_of_lt {n : ℕ} (h : n < 128) : varint n = [UInt8.ofNat n] := by
  unfold varint
  cases n with
  | zero => rfl
  | succ => rw [varintAux, if_pos h]

theorem varint_of_ge {n : ℕ} (h : 128 ≤ n) :
    varint n = UInt8.ofNat (n % 128 + 128) :: varint (n / 128) := by
  obtain ⟨m, rfl⟩ : ∃ m, n = m + 1 := ⟨n - 1, by omega⟩
  unfold varint
  rw [varintAux, if_neg (by omega), varintAux_eq m ((m + 1) / 128) _ (by omega) le_rfl]

theorem varint_ne_nil (n : ℕ) : varint n ≠ [] := by
  by_cases h : n < 128
  · simp [varint_of_lt h]
  · simp [varint_of_ge (not_lt.mp h)]

private theorem byte_inj {a b : ℕ} (ha : a < 256) (hb : b < 256)
    (h : UInt8.ofNat a = UInt8.ofNat b) : a = b := by
  have hmod : a % 256 = b % 256 := by simpa using congrArg UInt8.toNat h
  omega

theorem prefixCode_varint : PrefixCode varint := by
  intro a
  induction a using Nat.strong_induction_on with
  | _ a ih =>
    intro b x y h
    by_cases ha : a < 128 <;> by_cases hb : b < 128
    · rw [varint_of_lt ha, varint_of_lt hb] at h
      obtain ⟨h1, h2⟩ := List.cons.inj h
      exact ⟨byte_inj (by omega) (by omega) h1, h2⟩
    · rw [varint_of_lt ha, varint_of_ge (not_lt.mp hb)] at h
      have := byte_inj (by omega) (by omega) (List.cons.inj h).1
      omega
    · rw [varint_of_ge (not_lt.mp ha), varint_of_lt hb] at h
      have := byte_inj (by omega) (by omega) (List.cons.inj h).1
      omega
    · rw [varint_of_ge (not_lt.mp ha), varint_of_ge (not_lt.mp hb)] at h
      obtain ⟨h1, h2⟩ := List.cons.inj h
      have hmod := byte_inj (by omega) (by omega) h1
      obtain ⟨_, hxy⟩ := ih (a / 128) (by omega) h2
      exact ⟨by omega, hxy⟩

/-- A payload preceded by its length. -/
def lengthDelimited (b : Bytes) : Bytes := varint b.length ++ b

theorem prefixCode_lengthDelimited : PrefixCode lengthDelimited := by
  intro a b x y h
  simp only [lengthDelimited, append_assoc] at h
  obtain ⟨hlen, h⟩ := prefixCode_varint h
  exact append_inj h hlen

def isContinuation (b : UInt8) : Bool := 0x80 ≤ b && b ≤ 0xBF

/-- `utf8.Valid`: shortest forms only, no surrogates, nothing above U+10FFFF. -/
def utf8Valid : Bytes → Bool
  | [] => true
  | b0 :: rest =>
    if b0 < 0x80 then utf8Valid rest
    else if 0xC2 ≤ b0 && b0 ≤ 0xDF then
      match rest with
      | b1 :: rest => isContinuation b1 && utf8Valid rest
      | _ => false
    else if 0xE0 ≤ b0 && b0 ≤ 0xEF then
      match rest with
      | b1 :: b2 :: rest =>
        isContinuation b1 && (b0 != 0xE0 || 0xA0 ≤ b1) && (b0 != 0xED || b1 ≤ 0x9F)
          && isContinuation b2 && utf8Valid rest
      | _ => false
    else if 0xF0 ≤ b0 && b0 ≤ 0xF4 then
      match rest with
      | b1 :: b2 :: b3 :: rest =>
        isContinuation b1 && (b0 != 0xF0 || 0x90 ≤ b1) && (b0 != 0xF4 || b1 ≤ 0x8F)
          && isContinuation b2 && isContinuation b3 && utf8Valid rest
      | _ => false
    else false

/-- A scalar field of wire type 0; the default value `0` is not written. -/
def fieldVarint (num v : ℕ) : Bytes := if v = 0 then [] else varint (8 * num) ++ varint v

/-- A `bytes` field (wire type 2); the empty string is not written. -/
def fieldBytes (num : ℕ) (b : Bytes) : Bytes :=
  if b = [] then [] else varint (8 * num + 2) ++ lengthDelimited b

/-- An embedded message, written even when it is empty. -/
def fieldMessage (num : ℕ) (b : Bytes) : Bytes := varint (8 * num + 2) ++ lengthDelimited b

/-- A `string` field; the marshallers refuse invalid UTF-8. -/
def fieldString (num : ℕ) (s : Bytes) : Option Bytes :=
  if utf8Valid s then some (fieldBytes num s) else none

theorem fieldMessage_flatMap_inj {num : ℕ} {l l' : List Bytes}
    (h : l.flatMap (fieldMessage num) = l'.flatMap (fieldMessage num)) : l = l' := by
  have hcode : PrefixCode (fieldMessage num) := by
    intro a b x y hab
    simp only [fieldMessage, append_assoc] at hab
    exact prefixCode_lengthDelimited (prefixCode_varint hab).2
  refine hcode.flatMap_inj (fun b hb => ?_) h
  exact varint_ne_nil _ (append_eq_nil_iff.mp hb).1

/-- A message of varint fields, given as pairs of a field number and a value. -/
def varintFields (fs : List (ℕ × ℕ)) : Bytes := fs.flatMap fun f => fieldVarint f.1 f.2

private theorem varintFields_eq_filter (fs : List (ℕ × ℕ)) :
    varintFields fs
      = (fs.filter (fun f => decide (f.2 ≠ 0))).flatMap
          (fun f => varint (8 * f.1) ++ varint f.2) := by
  induction fs with
  | nil => rfl
  | cons f fs ih =>
    have hcons : varintFields (f :: fs) = fieldVarint f.1 f.2 ++ varintFields fs := rfl
    rw [hcons, ih]
    by_cases hf : f.2 = 0
    · rw [filter_cons_of_neg (by simp [hf])]
      simp [fieldVarint, hf]
    · rw [filter_cons_of_pos (by simp [hf])]
      simp [fieldVarint, hf]

private theorem eq_of_filter_eq : ∀ {fs fs' : List (ℕ × ℕ)},
    fs.map Prod.fst = fs'.map Prod.fst → (fs.map Prod.fst).Nodup →
    fs.filter (fun f => decide (f.2 ≠ 0)) = fs'.filter (fun f => decide (f.2 ≠ 0)) →
    fs = fs'
  | [], [], _, _, _ => rfl
  | [], _ :: _, hk, _, _ => by simp at hk
  | _ :: _, [], hk, _, _ => by simp at hk
  | (k, v) :: fs, (k', v') :: fs', hk, hnd, hf => by
    obtain ⟨rfl, hks⟩ : k = k' ∧ fs.map Prod.fst = fs'.map Prod.fst := by simpa using hk
    obtain ⟨hnot, hnd'⟩ := nodup_cons.mp (by simpa using hnd : (k :: fs.map Prod.fst).Nodup)
    -- a head present on one side only would have to reappear in the other tail
    have habsent : ∀ (gs : List (ℕ × ℕ)), gs.map Prod.fst = fs.map Prod.fst → ∀ w,
        (k, w) ∉ gs.filter (fun f => decide (f.2 ≠ 0)) := by
      intro gs hgs w hmem
      exact hnot (hgs ▸ mem_map_of_mem (mem_of_mem_filter hmem))
    by_cases hv : v = 0 <;> by_cases hv' : v' = 0
    · subst hv hv'
      rw [eq_of_filter_eq hks hnd' hf]
    · subst hv
      rw [filter_cons_of_neg (by simp), filter_cons_of_pos (by simp [hv'])] at hf
      exact absurd (hf ▸ mem_cons_self) (habsent fs rfl v')
    · subst hv'
      rw [filter_cons_of_pos (by simp [hv]), filter_cons_of_neg (by simp)] at hf
      exact absurd (hf ▸ mem_cons_self) (habsent fs' hks.symm v)
    · rw [filter_cons_of_pos (by simp [hv]), filter_cons_of_pos (by simp [hv'])] at hf
      obtain ⟨hhead, htail⟩ := List.cons.inj hf
      rw [hhead, eq_of_filter_eq hks hnd' htail]

/-- **A message of varint fields determines their values**, although default
values are not written. -/
theorem varintFields_inj {fs fs' : List (ℕ × ℕ)} (hk : fs.map Prod.fst = fs'.map Prod.fst)
    (hnd : (fs.map Prod.fst).Nodup) (h : varintFields fs = varintFields fs') : fs = fs' := by
  rw [varintFields_eq_filter, varintFields_eq_filter] at h
  have hcode : PrefixCode (fun f : ℕ × ℕ => varint (8 * f.1) ++ varint f.2) :=
    (prefixCode_varint.comp (f := fun n : ℕ => 8 * n) fun a b hab => by
      simpa using hab).pair prefixCode_varint
  refine eq_of_filter_eq hk hnd (hcode.flatMap_inj (fun f hf => ?_) h)
  exact varint_ne_nil _ (append_eq_nil_iff.mp hf).1

/-- The low `width` bytes of `v`, most significant first. -/
def beBytes : ℕ → ℕ → Bytes
  | 0, _ => []
  | width + 1, v => beBytes width (v / 256) ++ [UInt8.ofNat v]

@[simp] theorem length_beBytes (width v : ℕ) : (beBytes width v).length = width := by
  induction width generalizing v with
  | zero => rfl
  | succ _ ih => simp [beBytes, ih]

/-- The number that big-endian bytes stand for. -/
def beNat (bs : Bytes) : ℕ := bs.foldl (fun n b => n * 256 + b.toNat) 0

theorem beNat_beBytes (width v : ℕ) : beNat (beBytes width v) = v % 256 ^ width := by
  induction width generalizing v with
  | zero => simp [beBytes, beNat, Nat.mod_one]
  | succ width ih =>
    have hbyte : (UInt8.ofNat v).toNat = v % 256 := UInt8.toNat_ofNat' ..
    have hhigh : (beBytes width (v / 256)).foldl (fun n b => n * 256 + b.toNat) 0
        = v / 256 % 256 ^ width := ih (v / 256)
    rw [beBytes, beNat, foldl_append, hhigh, foldl_cons, foldl_nil, hbyte,
      Nat.pow_succ', Nat.mod_mul]
    omega

theorem beBytes_inj {width v w : ℕ} (hv : v < 256 ^ width) (hw : w < 256 ^ width)
    (h : beBytes width v = beBytes width w) : v = w := by
  rw [← Nat.mod_eq_of_lt hv, ← Nat.mod_eq_of_lt hw, ← beNat_beBytes, ← beNat_beBytes, h]

/-- `binary.BigEndian.PutUint64`. -/
def be64 (v : UInt64) : Bytes := beBytes 8 v.toNat

@[simp] theorem length_be64 (v : UInt64) : (be64 v).length = 8 := length_beBytes 8 _

theorem be64_inj {v w : UInt64} (h : be64 v = be64 w) : v = w :=
  UInt64.toNat_inj.mp (beBytes_inj v.toNat_lt w.toNat_lt h)

end Wire
