import ShGateway.Lib.NorFlash

/-!
NUL-terminated strings in memory, and tables of them that end with an empty
string.
-/

namespace ShGateway.Lib.StringTable

open ShGateway.Lib.NorFlash

/-- A string that can be an element of a table. -/
structure IsString (s : List UInt8) : Prop where
  ne_nil : s ≠ []
  ne_nul : ∀ b ∈ s, b ≠ 0

/-- The strings of a table, each with its terminator, and the final terminator. -/
def tableBytes (ss : List (List UInt8)) : List UInt8 := ss.flatMap (· ++ [0]) ++ [0]

/-- Keys and values in the order they are stored. -/
def strings (fs : List (List UInt8 × List UInt8)) : List (List UInt8) :=
  fs.flatMap fun f => [f.1, f.2]

/-- The string `s` and its terminator are stored at `a`. -/
def CStringAt (m : Mem) (a : Nat) (s : List UInt8) : Prop :=
  readBytes m a (s.length + 1) = s ++ [0]

@[simp] theorem tableBytes_nil : tableBytes [] = [0] := rfl

@[simp] theorem tableBytes_cons (s : List UInt8) (ss : List (List UInt8)) :
    tableBytes (s :: ss) = s ++ 0 :: tableBytes ss := by
  simp [tableBytes]

@[simp] theorem strings_nil : strings [] = [] := rfl

@[simp] theorem strings_cons (k v : List UInt8) (fs : List (List UInt8 × List UInt8)) :
    strings ((k, v) :: fs) = k :: v :: strings fs := by
  simp [strings]

theorem length_strings (fs : List (List UInt8 × List UInt8)) :
    (strings fs).length = 2 * fs.length := by
  induction fs with
  | nil => rfl
  | cons f fs ih =>
      rw [strings_cons, List.length_cons, List.length_cons, ih, List.length_cons]
      omega

theorem exists_strings_eq {ss : List (List UInt8)} (h : ss.length % 2 = 0) :
    ∃ fs, strings fs = ss := by
  match ss, h with
  | [], _ => exact ⟨[], rfl⟩
  | [_], h => simp at h
  | k :: v :: ss, h =>
      obtain ⟨fs, rfl⟩ : ∃ fs, strings fs = ss := exists_strings_eq (by
        simp only [List.length_cons] at h
        omega)
      exact ⟨(k, v) :: fs, strings_cons k v fs⟩

theorem strings_injective : Function.Injective strings := by
  intro fs gs h
  induction fs generalizing gs with
  | nil =>
      cases gs with
      | nil => rfl
      | cons g gs => simp [strings] at h
  | cons f fs ih =>
      cases gs with
      | nil => simp [strings] at h
      | cons g gs =>
          rw [strings_cons, strings_cons] at h
          obtain ⟨hk, h⟩ := List.cons.inj h
          obtain ⟨hv, h⟩ := List.cons.inj h
          rw [ih h, Prod.ext hk hv]

/-- The first terminator tells where a string ends. -/
theorem string_append_inj {s t xs ys : List UInt8} (hs : ∀ b ∈ s, b ≠ 0)
    (ht : ∀ b ∈ t, b ≠ 0) (h : s ++ 0 :: xs = t ++ 0 :: ys) : s = t ∧ xs = ys := by
  have hstring : ∀ (u zs : List UInt8), (∀ b ∈ u, b ≠ 0) →
      (u ++ 0 :: zs).takeWhile (· ≠ 0) = u := by
    intro u zs hu
    rw [List.takeWhile_append_of_pos fun b hb => by simpa using hu b hb]
    simp
  have heq : s = t := by rw [← hstring s xs hs, h, hstring t ys ht]
  subst heq
  exact ⟨rfl, (List.cons.inj (List.append_cancel_left h)).2⟩

theorem tableBytes_inj {ss ts : List (List UInt8)} {xs ys : List UInt8}
    (hs : ∀ s ∈ ss, IsString s) (ht : ∀ s ∈ ts, IsString s)
    (h : tableBytes ss ++ xs = tableBytes ts ++ ys) : ss = ts := by
  induction ss generalizing ts with
  | nil =>
      cases ts with
      | nil => rfl
      | cons t ts =>
          have hstring := ht t (by simp)
          obtain ⟨b, t, rfl⟩ := List.exists_cons_of_ne_nil hstring.ne_nil
          simp only [tableBytes_nil, tableBytes_cons, List.cons_append] at h
          exact absurd (List.cons.inj h).1.symm (hstring.ne_nul b (by simp))
  | cons s ss ih =>
      have hstring := hs s (by simp)
      cases ts with
      | nil =>
          obtain ⟨b, s, rfl⟩ := List.exists_cons_of_ne_nil hstring.ne_nil
          simp only [tableBytes_nil, tableBytes_cons, List.cons_append] at h
          exact absurd (List.cons.inj h).1 (hstring.ne_nul b (by simp))
      | cons t ts =>
          rw [tableBytes_cons, tableBytes_cons, List.append_assoc, List.append_assoc,
            List.cons_append, List.cons_append] at h
          obtain ⟨rfl, hrest⟩ :=
            string_append_inj hstring.ne_nul (ht t (by simp)).ne_nul h
          rw [ih (fun u hu => hs u (List.mem_cons_of_mem s hu))
            (fun u hu => ht u (List.mem_cons_of_mem s hu)) hrest]

theorem exists_tableBytes_eq {ss : List (List UInt8)} (h : ss ≠ []) :
    ∃ xs, tableBytes ss = xs ++ [0, 0] := by
  induction ss with
  | nil => exact absurd rfl h
  | cons s ss ih =>
      rw [tableBytes_cons]
      rcases ss with _ | ⟨t, ss⟩
      · exact ⟨s, rfl⟩
      · obtain ⟨xs, hxs⟩ := ih (by simp)
        exact ⟨s ++ 0 :: xs, by rw [hxs]; simp⟩

/-- Two terminators in a row only stand at the end of a table. -/
theorem tableBytes_nuls {ss : List (List UInt8)} (hs : ∀ s ∈ ss, IsString s) {i : Nat}
    (h₁ : (tableBytes ss)[i]? = some 0) (h₂ : (tableBytes ss)[i + 1]? = some 0) :
    i + 2 = (tableBytes ss).length := by
  induction ss generalizing i with
  | nil => simp at h₂
  | cons s ss ih =>
      have hstring := hs s (by simp)
      rw [tableBytes_cons] at h₁ h₂ ⊢
      rw [List.length_append, List.length_cons]
      rcases Nat.lt_trichotomy i s.length with hlt | heq | hgt
      · rw [List.getElem?_append_left hlt, List.getElem?_eq_getElem hlt] at h₁
        exact absurd (Option.some.inj h₁) (hstring.ne_nul _ (List.getElem_mem hlt))
      · rw [List.getElem?_append_right (by omega), heq, Nat.add_sub_cancel_left,
          List.getElem?_cons_succ] at h₂
        rcases ss with _ | ⟨t, ss⟩
        · simp [heq]
        · obtain ⟨b, t', rfl⟩ :=
            List.exists_cons_of_ne_nil (hs t (by simp)).ne_nil
          have hb := (hs (b :: t') (by simp)).ne_nul b (by simp)
          rw [tableBytes_cons, List.cons_append, List.getElem?_cons_zero] at h₂
          exact absurd (Option.some.inj h₂) hb
      · obtain ⟨j, rfl⟩ := Nat.exists_eq_add_of_lt hgt
        have hskip : s.length + j + 1 - s.length = j + 1 := by omega
        have hskip' : s.length + j + 1 + 1 - s.length = j + 1 + 1 := by omega
        rw [List.getElem?_append_right (by omega), hskip, List.getElem?_cons_succ] at h₁
        rw [List.getElem?_append_right (by omega), hskip', List.getElem?_cons_succ] at h₂
        have := ih (fun t ht => hs t (List.mem_cons_of_mem s ht)) h₁ h₂
        omega

theorem cStringAt_nil {m : Mem} {a : Nat} : CStringAt m a [] ↔ m a = 0 := by
  rw [CStringAt, List.length_nil, readBytes_succ, readBytes_zero, List.nil_append,
    List.cons_eq_cons, and_iff_left rfl]

theorem cStringAt_cons {m : Mem} {a : Nat} {b : UInt8} {s : List UInt8} :
    CStringAt m a (b :: s) ↔ m a = b ∧ CStringAt m (a + 1) s := by
  rw [CStringAt, List.length_cons, readBytes_succ, List.cons_append, List.cons_eq_cons]
  rfl

theorem CStringAt.getElem {m : Mem} {a : Nat} {s : List UInt8} (h : CStringAt m a s) :
    (∀ (i : Nat) (hi : i < s.length), m (a + i) = s[i]) ∧ m (a + s.length) = 0 := by
  have hlen : (s ++ [0]).length = s.length + 1 := by simp
  have hstored := (readBytes_eq_iff m a (s ++ [0])).mp (by rw [hlen]; exact h)
  constructor
  · intro i hi
    rw [hstored i (by omega), List.getElem_append_left hi]
  · rw [hstored s.length (by omega)]
    simp

theorem CStringAt.readBytes {m : Mem} {a : Nat} {s : List UInt8} (h : CStringAt m a s) :
    readBytes m a s.length = s := by
  rw [CStringAt, readBytes_add] at h
  exact (List.append_inj h (by simp)).1

end ShGateway.Lib.StringTable
