/-
The leaves of a commit that a validator checks.

A commit may have billions of leaves, so the shuffle that draws the sample keeps only the entries it
has moved.  The seed of the draws is left out: `draw i` is what `rng.Intn(n-i)` returns in round `i`.

Main result: `sampleLeafIndices_spec`.
-/
import Gonka.Lib.OrdMap

namespace LeafSampling

open List

def uint32 (i : ℕ) : ℕ := i % 2 ^ 32

def get (swaps : OrdMap ℕ ℕ) (i : ℕ) : ℕ := (swaps.get? i).getD i

/-- The loop, with the rounds that are left. -/
def sampleLoop (draw : ℕ → ℕ) : ℕ → ℕ → OrdMap ℕ ℕ → List ℕ
  | 0, _, _ => []
  | left + 1, i, swaps =>
    let ii := uint32 i
    let jj := uint32 (i + draw i)
    let vi := get swaps ii
    let vj := get swaps jj
    vj :: sampleLoop draw left (i + 1) ((swaps.insert ii vj).insert jj vi)

def sampleLeafIndices (draw : ℕ → ℕ) (count : ℕ) (sampleSize : ℤ) : List ℕ :=
  if count = 0 then []
  else if sampleSize ≤ 0 then []
  else if count ≤ sampleSize then range count
  else sampleLoop draw sampleSize.toNat 0 ∅

/-- The array after some steps of the shuffle. -/
def fisherYates (draw : ℕ → ℕ) (n : ℕ) : ℕ → Array ℕ
  | 0 => .range n
  | k + 1 => (fisherYates draw n k).swapIfInBounds k (k + draw k)

/-- `swaps` has what was moved in the array. -/
structure Represents (n : ℕ) (swaps : OrdMap ℕ ℕ) (a : Array ℕ) : Prop where
  perm : a.toList ~ range n
  entry : ∀ x < n, a[x]? = some (get swaps x)

variable {n i j : ℕ} {swaps : OrdMap ℕ ℕ} {a : Array ℕ} {draw : ℕ → ℕ}

theorem get_swapped (swaps : OrdMap ℕ ℕ) (i j x : ℕ) :
    get ((swaps.insert i (get swaps j)).insert j (get swaps i)) x =
      if j = x then get swaps i else if i = x then get swaps j else get swaps x := by
  unfold get
  rw [OrdMap.get?_insert, OrdMap.get?_insert]
  simp only [eq_comm (a := x)]
  split_ifs <;> rfl

theorem Represents.size (h : Represents n swaps a) : a.size = n := by
  rw [← Array.length_toList, h.perm.length_eq, length_range]

theorem Represents.step (h : Represents n swaps a) (hi : i < n) (hj : j < n) :
    Represents n ((swaps.insert i (get swaps j)).insert j (get swaps i)) (a.swapIfInBounds i j) := by
  have hsize := h.size
  have hi' : i < a.size := by omega
  have hj' : j < a.size := by omega
  rw [Array.swapIfInBounds_def, dif_pos hi', dif_pos hj']
  refine ⟨(Array.perm_iff_toList_perm.mp (Array.swap_perm hi' hj')).trans h.perm, fun x hx => ?_⟩
  rw [Array.getElem?_swap, get_swapped, ← Array.getElem?_eq_getElem, ← Array.getElem?_eq_getElem,
    h.entry i hi, h.entry j hj, h.entry x hx]
  split_ifs <;> rfl

theorem fisherYates_stable {x k m : ℕ} (hx : x < k) (hk : k ≤ m) :
    (fisherYates draw n m)[x]? = (fisherYates draw n k)[x]? := by
  induction m, hk using Nat.le_induction with
  | base => rfl
  | succ m hm ih =>
    rw [← ih, fisherYates, Array.swapIfInBounds_def]
    split_ifs
    · rw [Array.getElem?_swap, if_neg (by omega), if_neg (by omega)]
    · rfl
    · rfl

theorem sampleLoop_eq {left : ℕ} (hn : n < 2 ^ 32) (hdraw : ∀ i < n, draw i < n - i)
    (h : Represents n swaps (fisherYates draw n i)) (hle : i + left ≤ n) :
    sampleLoop draw left i swaps = ((fisherYates draw n (i + left)).toList.drop i).take left ∧
      ∃ swaps', Represents n swaps' (fisherYates draw n (i + left)) := by
  induction left generalizing i swaps with
  | zero => exact ⟨rfl, swaps, h⟩
  | succ left ih =>
    have hd := hdraw i (by omega)
    have hi : uint32 i = i := Nat.mod_eq_of_lt (by omega)
    have hj : uint32 (i + draw i) = i + draw i := Nat.mod_eq_of_lt (by omega)
    have hstep := h.step (i := i) (j := i + draw i) (by omega) (by omega)
    obtain ⟨hrest, hlast⟩ := @ih (i + 1) _ hstep (by omega)
    rw [Nat.add_right_comm] at hrest hlast
    refine ⟨?_, hlast⟩
    -- the entry drawn in this round is at `i` from now on
    have hhead : (fisherYates draw n (i + left + 1))[i]? = some (get swaps (i + draw i)) := by
      rw [fisherYates_stable (k := i + 1) (by omega) (by omega), fisherYates, hstep.entry i (by omega),
        get_swapped]
      by_cases hsame : i + draw i = i
      · rw [if_pos hsame, hsame]
      · rw [if_neg hsame, if_pos rfl]
    unfold sampleLoop
    dsimp only
    rw [hi, hj, hrest, drop_eq_getElem?_toList_append (i := i), Array.getElem?_toList]
    rw [← Nat.add_assoc, hhead]
    rfl

/-- **The sample**, for any draws. -/
theorem sampleLeafIndices_spec {count : ℕ} (hcount : count < 2 ^ 32)
    (hdraw : ∀ i < count, draw i < count - i) (sampleSize : ℤ) :
    (sampleLeafIndices draw count sampleSize).length = min sampleSize.toNat count ∧
    (sampleLeafIndices draw count sampleSize).Nodup ∧
    (∀ x ∈ sampleLeafIndices draw count sampleSize, x < count) ∧
    (sampleSize < count → sampleLeafIndices draw count sampleSize =
      (fisherYates draw count sampleSize.toNat).toList.take sampleSize.toNat) := by
  unfold sampleLeafIndices
  split_ifs with hzero hneg hall
  · subst hzero
    refine ⟨by simp, nodup_nil, by simp, fun h => ?_⟩
    rw [Int.toNat_of_nonpos (by omega), take_zero]
  · rw [Int.toNat_of_nonpos hneg]
    simp
  · refine ⟨?_, nodup_range, fun x hx => mem_range.mp hx, fun h => by omega⟩
    rw [length_range]
    omega
  · have hempty : Represents count ∅ (fisherYates draw count 0) := by
      refine ⟨by rw [fisherYates, Array.toList_range], fun x hx => ?_⟩
      rw [fisherYates, Array.getElem?_range, if_pos hx]
      rfl
    obtain ⟨heq, swaps, hlast⟩ := sampleLoop_eq hcount hdraw hempty
      (by omega : 0 + sampleSize.toNat ≤ count)
    rw [Nat.zero_add, drop_zero] at heq
    rw [Nat.zero_add] at hlast
    rw [heq]
    refine ⟨?_, (hlast.perm.nodup_iff.mpr nodup_range).take, fun x hx => ?_, fun _ => rfl⟩
    · rw [length_take, hlast.perm.length_eq, length_range]
    · exact mem_range.mp (hlast.perm.mem_iff.mp (mem_of_mem_take hx))

theorem sampleLeafIndices_spec_last : sampleLeafIndices (fun i => 2 - i) 3 2 = [2, 0] ∧
    (sampleLeafIndices (fun i => 2 - i) 3 2).Nodup :=
  ⟨by decide, (@sampleLeafIndices_spec (fun i => 2 - i) 3 (by decide) (by decide) 2).2.1⟩

end LeafSampling
