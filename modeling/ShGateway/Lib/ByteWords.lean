import Mathlib

namespace ShGateway.Lib.ByteWords

/-- The two bytes of a 16-bit number, least significant first. -/
def le16 (n : Nat) : List UInt8 := [UInt8.ofNat n, UInt8.ofNat (n / 256)]

/-- The four bytes of a 32-bit number, least significant first. -/
def le32 (n : Nat) : List UInt8 :=
  [UInt8.ofNat n, UInt8.ofNat (n / 256), UInt8.ofNat (n / 65536),
    UInt8.ofNat (n / 16777216)]

/-- The number whose bytes are listed least significant first. -/
def ofLe : List UInt8 → Nat
  | [] => 0
  | b :: bs => b.toNat + 256 * ofLe bs

@[simp] theorem le16_length (n : Nat) : (le16 n).length = 2 := rfl

@[simp] theorem le32_length (n : Nat) : (le32 n).length = 4 := rfl

theorem ofLe_le16 {n : Nat} (h : n < 65536) : ofLe (le16 n) = n := by
  simp only [le16, ofLe, UInt8.toNat_ofNat']
  omega

theorem ofLe_le32 {n : Nat} (h : n < 4294967296) : ofLe (le32 n) = n := by
  simp only [le32, ofLe, UInt8.toNat_ofNat']
  omega

theorem ofLe_lt (bs : List UInt8) : ofLe bs < 256 ^ bs.length := by
  induction bs with
  | nil => simp [ofLe]
  | cons b bs ih =>
      have hb : b.toNat < 256 := b.toNat_lt
      simp only [ofLe, List.length_cons, Nat.pow_succ]
      omega

theorem ofLe_inj {xs ys : List UInt8} (hlength : xs.length = ys.length) (h : ofLe xs = ofLe ys) :
    xs = ys := by
  induction xs generalizing ys with
  | nil => exact (List.length_eq_zero_iff.mp hlength.symm).symm
  | cons x xs ih =>
      obtain ⟨y, ys, rfl⟩ := List.exists_cons_of_length_eq_add_one hlength.symm
      have hx : x.toNat < 256 := x.toNat_lt
      have hy : y.toNat < 256 := y.toNat_lt
      simp only [ofLe] at h
      have hhead : x.toNat = y.toNat := by omega
      have htail := ih (Nat.succ.inj hlength) (by omega)
      rw [UInt8.toNat_inj.mp hhead, htail]

theorem or_shiftLeft_eq_ofLe (a b : UInt8) :
    a.toNat ||| b.toNat <<< 8 = ofLe [a, b] := by
  have ha : a.toNat < 2 ^ 8 := a.toNat_lt
  rw [Nat.or_comm, ← Nat.shiftLeft_add_eq_or_of_lt ha, Nat.shiftLeft_eq]
  simp only [ofLe]
  omega

/-- The whole 32-bit words of a byte string, a shorter tail being dropped. -/
def words : List UInt8 → List UInt32
  | a :: b :: c :: d :: rest => UInt32.ofNat (ofLe [a, b, c, d]) :: words rest
  | _ => []

theorem words_cons_word {w : List UInt8} (hw : w.length = 4) (rest : List UInt8) :
    words (w ++ rest) = UInt32.ofNat (ofLe w) :: words rest := by
  match w, hw with
  | [a, b, c, d], _ => rfl

theorem words_append {xs : List UInt8} (h : 4 ∣ xs.length) (ys : List UInt8) :
    words (xs ++ ys) = words xs ++ words ys := by
  induction xs using words.induct with
  | case1 a b c d rest ih =>
      have hrest : 4 ∣ rest.length := by
        simp only [List.length_cons] at h
        omega
      simp only [List.cons_append, words, ih hrest]
  | case2 xs hshort =>
      have hnil : xs = [] := by
        rcases xs with _ | ⟨a, _ | ⟨b, _ | ⟨c, _ | ⟨d, rest⟩⟩⟩⟩
        · rfl
        · simp at h
        · simp at h
        · simp at h
        · exact absurd rfl (hshort a b c d rest)
      subst xs
      rfl

/-- Folding the words of a string that is read word by word. -/
theorem foldl_words_append {σ : Type*} (f : σ → UInt32 → σ) (s : σ)
    {xs : List UInt8} (h : 4 ∣ xs.length) (ys : List UInt8) :
    (words (xs ++ ys)).foldl f s = (words ys).foldl f ((words xs).foldl f s) := by
  rw [words_append h, List.foldl_append]

end ShGateway.Lib.ByteWords
