import ShGateway.Lib.Decimal
import ShGateway.Lib.Scan
import ShGateway.SessionTargets

/-!
The nodes that file names select.
-/

namespace ShGateway.NodeNames

open ShGateway.AppFiles
open ShGateway.Crc
open ShGateway.FwHeader
open ShGateway.GatewayFiles
open ShGateway.Lib.Decimal
open ShGateway.Lib.Scan
open ShGateway.SdoFlasher
open ShGateway.SessionTargets

/-! ## What `%u` reads -/

/-- A string as `%u` reads it: blanks, a sign, digits, and what is left unread. -/
structure Scanned (s blanks sign digits rest : List UInt8) : Prop where
  eq : s = blanks ++ (sign ++ (digits ++ rest))
  blanks : ∀ b ∈ blanks, isSpace b = true
  sign : sign ∈ ([[], [43], [45]] : List (List UInt8))
  digits : IsNumeral digits
  rest : ∀ b ∈ rest.head?, ¬ IsDigit b

/-- What is stored for a sign and the number after it. -/
def scannedValue (sign : List UInt8) (n : Nat) : Nat :=
  if sign = [45] then
    if n ≤ 2 ^ 32 - 1 then (2 ^ 32 - n) % 2 ^ 32 else 2 ^ 32 - 1
  else min n (2 ^ 32 - 1)

section

variable {s blanks sign digits rest : List UInt8} {n : Nat}

theorem scanDigits_eq (s : List UInt8) :
    scanDigits s =
      match s.takeWhile (fun b => decide (IsDigit b)) with
      | [] => none
      | b :: ds => some (decimalValue (b :: ds)) := by
  have hdigit : (fun b : UInt8 => decide (48 ≤ b ∧ b ≤ 57)) = fun b => decide (IsDigit b) := by
    funext b
    exact decide_eq_decide.mpr Iff.rfl
  rw [scanDigits, hdigit]
  rcases s.takeWhile fun b => decide (IsDigit b) with _ | ⟨b, ds⟩
  · rfl
  · rfl

theorem scanDigits_of_munch (hdigits : IsNumeral digits) (hrest : ∀ b ∈ rest.head?, ¬ IsDigit b) :
    scanDigits (digits ++ rest) = some (decimalValue digits) := by
  have hmunch : Munch (fun b => decide (IsDigit b)) (digits ++ rest) digits rest :=
    ⟨rfl, fun b hb => decide_eq_true (hdigits.2 b hb),
      fun b hb => decide_eq_false (hrest b hb)⟩
  rw [scanDigits_eq, hmunch.takeWhile]
  rcases digits with _ | ⟨b, ds⟩
  · exact absurd rfl hdigits.1
  · rfl

theorem scanDigits_eq_some (h : scanDigits s = some n) :
    ∃ digits rest, s = digits ++ rest ∧ IsNumeral digits ∧ (∀ b ∈ rest.head?, ¬ IsDigit b) ∧
      n = decimalValue digits := by
  have hmunch := munch (fun b => decide (IsDigit b)) s
  rw [scanDigits_eq] at h
  split at h
  · exact absurd h.symm (Option.some_ne_none n)
  · next b ds hds =>
      rw [hds] at hmunch
      exact ⟨b :: ds, _, hmunch.eq, ⟨List.cons_ne_nil b ds, fun b hb => of_decide_eq_true (hmunch.front b hb)⟩,
        fun b hb => of_decide_eq_false (hmunch.rest b hb), (Option.some.inj h).symm⟩

theorem not_isSpace_of_isDigit {b : UInt8} (h : IsDigit b) :
    isSpace b = false ∧ b ≠ 43 ∧ b ≠ 45 := by
  have hle := UInt8.le_iff_toNat_le.mp h.1
  have hmin : (48 : UInt8).toNat = 48 := rfl
  rw [hmin] at hle
  refine ⟨decide_eq_false ?_, ?_, ?_⟩
  · rintro (rfl | ⟨-, htop⟩)
    · exact absurd hle (by decide)
    · have htop := UInt8.le_iff_toNat_le.mp htop
      have hmax : (13 : UInt8).toNat = 13 := rfl
      omega
  · rintro rfl
    exact absurd hle (by decide)
  · rintro rfl
    exact absurd hle (by decide)

theorem Scanned.munch (h : Scanned s blanks sign digits rest) :
    Munch isSpace s blanks (sign ++ (digits ++ rest)) := by
  refine ⟨h.eq, h.blanks, ?_⟩
  obtain ⟨hne, hall⟩ := h.digits
  rcases digits with _ | ⟨d, ds⟩
  · exact absurd rfl hne
  have hd := (not_isSpace_of_isDigit (hall d List.mem_cons_self)).1
  have hsign := h.sign
  simp only [List.mem_cons, List.not_mem_nil, or_false] at hsign
  rcases hsign with rfl | rfl | rfl
  · rintro b ⟨⟩
    exact hd
  · rintro b ⟨⟩
    rfl
  · rintro b ⟨⟩
    rfl

theorem scanUnsigned_of_scanned (h : Scanned s blanks sign digits rest) :
    scanUnsigned s = some (scannedValue sign (decimalValue digits)) := by
  have hscan := scanDigits_of_munch h.digits h.rest
  rw [scanUnsigned, h.munch.dropWhile]
  have hsign := h.sign
  simp only [List.mem_cons, List.not_mem_nil, or_false] at hsign
  rcases hsign with rfl | rfl | rfl
  · obtain ⟨hne, hall⟩ := h.digits
    rcases digits with _ | ⟨d, ds⟩
    · exact absurd rfl hne
    obtain ⟨-, hplus, hminus⟩ := not_isSpace_of_isDigit (hall d List.mem_cons_self)
    rw [List.nil_append]
    split
    · next hcons => exact absurd (List.cons.inj hcons).1 hminus
    · next hcons => exact absurd (List.cons.inj hcons).1 hplus
    · rw [hscan]
      rfl
  · change (scanDigits (digits ++ rest)).map _ = _
    rw [hscan]
    rfl
  · change (scanDigits (digits ++ rest)).map _ = _
    rw [hscan]
    rfl

theorem exists_scanned (h : scanUnsigned s = some n) :
    ∃ blanks sign digits rest, Scanned s blanks sign digits rest ∧
      n = scannedValue sign (decimalValue digits) := by
  have hmunch := Lib.Scan.munch isSpace s
  have hstart : ∃ sign s', s.dropWhile isSpace = sign ++ s' ∧
      sign ∈ ([[], [43], [45]] : List (List UInt8)) ∧
        ∃ n', scanDigits s' = some n' ∧ n = scannedValue sign n' := by
    rw [scanUnsigned] at h
    split at h
    · next s' hs =>
        obtain ⟨n', hscan, hn⟩ := Option.map_eq_some_iff.mp h
        exact ⟨[45], s', hs, by decide, n', hscan, hn.symm⟩
    · next s' hs =>
        obtain ⟨n', hscan, hn⟩ := Option.map_eq_some_iff.mp h
        exact ⟨[43], s', hs, by decide, n', hscan, hn.symm⟩
    · obtain ⟨n', hscan, hn⟩ := Option.map_eq_some_iff.mp h
      exact ⟨[], _, rfl, by decide, n', hscan, hn.symm⟩
  obtain ⟨sign, s', hs, hsign, n', hscan, hn⟩ := hstart
  obtain ⟨digits, rest, rfl, hdigits, hrest, rfl⟩ := scanDigits_eq_some hscan
  rw [hs] at hmunch
  exact ⟨_, sign, digits, rest, ⟨hmunch.eq, hmunch.front, hsign, hdigits, hrest⟩, hn⟩

theorem Scanned.plain (h : Scanned s blanks sign digits rest) (hs : IsNumeral s) :
    blanks = [] ∧ sign = [] ∧ rest = [] := by
  obtain ⟨rfl, hblanks, hsign, -, hrest⟩ := h
  have hdigit := hs.2
  refine ⟨?_, ?_, ?_⟩
  · rcases blanks with _ | ⟨b, bs⟩
    · rfl
    · have hb := hblanks b List.mem_cons_self
      rw [(not_isSpace_of_isDigit (hdigit b List.mem_cons_self)).1] at hb
      exact absurd hb nofun
  · rcases sign with _ | ⟨b, bs⟩
    · rfl
    · obtain ⟨-, hplus, hminus⟩ := not_isSpace_of_isDigit (hdigit b (by simp))
      simp only [List.mem_cons, List.not_mem_nil, or_false, List.cons.injEq] at hsign
      rcases hsign with hsign | ⟨rfl, -⟩ | ⟨rfl, -⟩
      · exact absurd hsign nofun
      · exact absurd rfl hplus
      · exact absurd rfl hminus
  · rcases rest with _ | ⟨b, bs⟩
    · rfl
    · exact absurd (hdigit b (by simp)) (hrest b rfl)

theorem scanned_numeral (hs : IsNumeral s) : Scanned s [] [] s [] :=
  ⟨by simp, nofun, by decide, hs, nofun⟩

theorem getCanId_eq (s : List UInt8) : getCanId s = UInt8.ofNat ((scanUnsigned s).getD 0) := by
  rw [getCanId.eq_def]
  rcases s with _ | ⟨b, s⟩
  · rfl
  · rcases hscan : scanUnsigned (b :: s) with _ | n
    · simp only [hscan]
      rfl
    · simp only [hscan]
      rfl

end

/-! ## The entries of `nd` -/

section

variable {fileName s : List UInt8} {t u : FwType} {isWrite : Bool}

theorem ndName_prefix_ndName (h : ndName t <+: ndName u) : t = u := by
  revert h
  cases t <;> cases u <;> decide +kernel

theorem ndName_eq_of_prefix (ht : ndName t <+: fileName) (hu : ndName u <+: fileName) : t = u := by
  rcases List.prefix_or_prefix_of_prefix ht hu with h | h
  · exact ndName_prefix_ndName h
  · exact (ndName_prefix_ndName h).symm

theorem findNd_eq_some_iff : findNd fileName = some (t, s) ↔ fileName = ndName t ++ s ∧ s ≠ [] := by
  rw [findNd]
  constructor
  · intro h
    obtain ⟨u, -, hu⟩ := List.exists_of_findSome?_eq_some h
    split_ifs at hu with hproper
    obtain ⟨⟨⟨s', rfl⟩, hlen⟩, hts⟩ := And.intro hproper (Prod.mk.inj (Option.some.inj hu))
    obtain ⟨rfl, rfl⟩ := hts
    rw [List.drop_left]
    refine ⟨rfl, ?_⟩
    rintro rfl
    exact hlen (by rw [List.append_nil])
  · rintro ⟨rfl, hs⟩
    have hlen : (ndName t ++ s).length ≠ (ndName t).length := by
      have hpos := List.length_pos_iff.mpr hs
      rw [List.length_append]
      omega
    rcases hfind : findNd (ndName t ++ s) with _ | ⟨u, s'⟩
    · have hnone := List.findSome?_eq_none_iff.mp hfind t (by cases t <;> decide)
      rw [if_pos ⟨List.prefix_append _ _, hlen⟩] at hnone
      exact absurd hnone nofun
    · obtain ⟨v, -, hv⟩ := List.exists_of_findSome?_eq_some hfind
      split_ifs at hv with hproper
      obtain rfl := ndName_eq_of_prefix hproper.1 (List.prefix_append (ndName t) s)
      rw [← findNd, hfind, ← hv, List.drop_left]

/-- The names that select a file of the gateway itself. -/
def GatewayFile (isWrite : Bool) (fileName : List UInt8) : Prop :=
  if isWrite then fileName = literal "sh_gw_ldr" else ∃ t, fileName = gwRdName t

theorem findNd_gwRdName (t : FwType) : findNd (gwRdName t) = none := by
  cases t <;> decide +kernel

theorem findGwRd_eq_none_iff : findGwRd fileName = none ↔ ∀ t, fileName ≠ gwRdName t := by
  rw [findGwRd, List.find?_eq_none]
  constructor
  · rintro h t rfl
    exact h t (by cases t <;> decide) (decide_eq_true rfl)
  · rintro h t - heq
    exact h t (of_decide_eq_true heq)

theorem fileTarget_of_not_gatewayFile (h : ¬ GatewayFile isWrite fileName) :
    fileTarget isWrite fileName =
      (findNd fileName).bind fun (t, s) =>
        if getCanId s = 0 then none else some (.node (getCanId s) t) := by
  rw [fileTarget, if_neg]
  · have hgw : (if isWrite then none else findGwRd fileName) = none := by
      cases isWrite with
      | true => rfl
      | false => exact findGwRd_eq_none_iff.mpr fun t ht => h ⟨t, ht⟩
    rw [hgw]
    rcases findNd fileName with _ | ⟨t, s⟩
    · rfl
    · rfl
  · rintro ⟨hname, rfl⟩
    exact h hname

theorem findNd_of_gatewayFile (h : GatewayFile isWrite fileName) : findNd fileName = none := by
  cases isWrite with
  | true =>
      obtain rfl : fileName = gwRdName .ldr := h
      exact findNd_gwRdName .ldr
  | false =>
      obtain ⟨t, rfl⟩ := h
      exact findNd_gwRdName t

end

/-! ## Names that spell a node -/

/-- The file name is the name of a node firmware, followed by a number in 1..127. -/
def Spells (fileName : List UInt8) (t : FwType) (n : Nat) : Prop :=
  ∃ s, fileName = ndName t ++ s ∧ IsNumeral s ∧ decimalValue s = n ∧ 1 ≤ n ∧ n ≤ 127

section

variable {β : Type*} (unit : CrcUnit) (lits : NameLiterals) (isWrite : Bool)
  (fileName : List UInt8) (w : AppWorld β)

/-- A name that spells a node selects it, and no other name selects one. -/
structure SelectsAsSpelled : Prop where
  accepted : ∀ t n, Spells fileName t n →
    AppFiles.tftpServerCheckFile unit lits isWrite fileName w =
      (0, { checked unit lits w with
        sdoFlasherId := UInt8.ofNat n
        cbRead := some .nd
        cbWrite := some (ndWriteCb t)
        ndFwCb := some t })
  rejected : ¬ GatewayFile isWrite fileName → (∀ t n, ¬ Spells fileName t n) →
    (AppFiles.tftpServerCheckFile unit lits isWrite fileName w).1 ≠ 0 ∧
      selection (AppFiles.tftpServerCheckFile unit lits isWrite fileName w).2 = selection w

end

/-- A suffix from which a number is read is the number, and at most 127; unless the low eight
bits of what is read are zero. -/
def PlainNumber (s : List UInt8) : Prop :=
  ∀ blanks sign digits rest, Scanned s blanks sign digits rest →
    scannedValue sign (decimalValue digits) % 256 ≠ 0 →
      blanks = [] ∧ sign = [] ∧ rest = [] ∧ decimalValue digits ≤ 127

section

variable {fileName s : List UInt8} {t : FwType} {n : Nat}

theorem ofNat_eq_zero_iff : UInt8.ofNat n = 0 ↔ n % 256 = 0 := by
  rw [← UInt8.toNat_inj, UInt8.toNat_ofNat']
  exact Iff.rfl

theorem getCanId_numeral (hs : IsNumeral s) (hle : decimalValue s ≤ 127) :
    getCanId s = UInt8.ofNat (decimalValue s) := by
  have hmin : min (decimalValue s) (2 ^ 32 - 1) = decimalValue s := Nat.min_eq_left (by omega)
  rw [getCanId_eq, scanUnsigned_of_scanned (scanned_numeral hs), Option.getD_some, scannedValue,
    if_neg (by decide), hmin]

theorem getCanId_ne_zero (h : getCanId s ≠ 0) :
    ∃ blanks sign digits rest, Scanned s blanks sign digits rest ∧
      scannedValue sign (decimalValue digits) % 256 ≠ 0 := by
  rw [getCanId_eq] at h
  rcases hscan : scanUnsigned s with _ | n
  · rw [hscan] at h
    exact absurd rfl h
  · obtain ⟨blanks, sign, digits, rest, hscanned, rfl⟩ := exists_scanned hscan
    rw [hscan] at h
    exact ⟨blanks, sign, digits, rest, hscanned, fun hzero => h (ofNat_eq_zero_iff.mpr hzero)⟩

theorem spells_iff :
    Spells fileName t n ↔
      ∃ s, findNd fileName = some (t, s) ∧ IsNumeral s ∧ decimalValue s = n ∧ 1 ≤ n ∧ n ≤ 127 := by
  constructor
  · rintro ⟨s, hname, hs, hvalue⟩
    exact ⟨s, findNd_eq_some_iff.mpr ⟨hname, hs.1⟩, hs, hvalue⟩
  · rintro ⟨s, hfind, hnumber⟩
    exact ⟨s, (findNd_eq_some_iff.mp hfind).1, hnumber⟩

theorem plainNumber_nil : PlainNumber [] := by
  rintro blanks sign digits rest hscanned -
  have hnil := hscanned.eq
  simp only [List.nil_eq, List.append_eq_nil_iff] at hnil
  exact absurd hnil.2.2.1 hscanned.digits.1

theorem forall_plainNumber_iff :
    (∀ t s, fileName = ndName t ++ s → PlainNumber s) ↔
      ∀ t s, findNd fileName = some (t, s) → PlainNumber s := by
  constructor
  · exact fun h t s hfind => h t s (findNd_eq_some_iff.mp hfind).1
  · intro h t s hname
    rcases Classical.em (s = []) with rfl | hne
    · exact plainNumber_nil
    · exact h t s (findNd_eq_some_iff.mpr ⟨hname, hne⟩)

/-- A suffix selects a node exactly if it is a plain number in 1..127, or else no node at
all. -/
theorem plainNumber_iff :
    PlainNumber s ↔ getCanId s = 0 ∨ IsNumeral s ∧ 1 ≤ decimalValue s ∧ decimalValue s ≤ 127 := by
  constructor
  · intro h
    rcases Classical.em (getCanId s = 0) with hid | hid
    · exact .inl hid
    · obtain ⟨blanks, sign, digits, rest, hscanned, hvalue⟩ := getCanId_ne_zero hid
      obtain ⟨rfl, rfl, rfl, hle⟩ := h _ _ _ _ hscanned hvalue
      have hs : s = digits := by simpa using hscanned.eq
      subst hs
      refine .inr ⟨hscanned.digits, Nat.one_le_iff_ne_zero.mpr ?_, hle⟩
      intro hzero
      rw [hzero] at hvalue
      exact hvalue rfl
  · rintro h blanks sign digits rest hscanned hvalue
    rcases h with hid | ⟨hs, -, hle⟩
    · rw [getCanId_eq, scanUnsigned_of_scanned hscanned, Option.getD_some] at hid
      exact absurd (ofNat_eq_zero_iff.mp hid) hvalue
    · obtain ⟨rfl, rfl, rfl⟩ := hscanned.plain hs
      have hdigits : s = digits := by simpa using hscanned.eq
      subst hdigits
      exact ⟨rfl, rfl, rfl, hle⟩

end

section

variable {β : Type*} (unit : CrcUnit) (lits : NameLiterals) (isWrite : Bool)
  (fileName : List UInt8) (w : AppWorld β)

/-- Whatever is asked for: the name selects the node it spells exactly if what follows the
name of a node firmware is a plain number or no number. -/
theorem selectsAsSpelled_iff :
    SelectsAsSpelled unit lits isWrite fileName w ↔
      ∀ t s, fileName = ndName t ++ s → PlainNumber s := by
  rw [forall_plainNumber_iff]
  rcases Classical.em (GatewayFile isWrite fileName) with hgw | hgw
  · have hfind := findNd_of_gatewayFile hgw
    refine iff_of_true ⟨fun t n hspells => ?_, fun hnot => absurd hgw hnot⟩ ?_
    · obtain ⟨s, hs, -⟩ := spells_iff.mp hspells
      rw [hfind] at hs
      exact absurd hs nofun
    · rw [hfind]
      exact nofun
  have hcheck := tftpServerCheckFile_eq unit lits isWrite fileName w
  rw [fileTarget_of_not_gatewayFile hgw] at hcheck
  rcases hfind : findNd fileName with _ | ⟨t, s⟩
  · rw [hfind] at hcheck
    refine iff_of_true ⟨fun t n hspells => ?_, fun _ _ => ?_⟩ nofun
    · obtain ⟨s, hs, -⟩ := spells_iff.mp hspells
      rw [hfind] at hs
      exact absurd hs nofun
    · rw [hcheck]
      exact ⟨nofun, selection_checked unit lits w⟩
  rw [hfind, Option.bind_some] at hcheck
  dsimp only at hcheck
  have honly : (∀ t' s', some (t, s) = some (t', s') → PlainNumber s') ↔ PlainNumber s := by
    constructor
    · exact fun h => h t s rfl
    · rintro h t' s' ⟨⟩
      exact h
  have hspells : ∀ u n, Spells fileName u n ↔
      t = u ∧ IsNumeral s ∧ decimalValue s = n ∧ 1 ≤ n ∧ n ≤ 127 := by
    intro u n
    rw [spells_iff, hfind]
    constructor
    · rintro ⟨s', ⟨⟩, hnumber⟩
      exact ⟨rfl, hnumber⟩
    · rintro ⟨rfl, hnumber⟩
      exact ⟨s, rfl, hnumber⟩
  rw [honly, plainNumber_iff]
  rcases Classical.em (getCanId s = 0) with hid | hid
  · rw [if_pos hid] at hcheck
    refine iff_of_true ⟨fun u n h => ?_, fun _ _ => ?_⟩ (.inl hid)
    · obtain ⟨rfl, hs, rfl, hpos, hle⟩ := (hspells u n).mp h
      rw [getCanId_numeral hs hle, ofNat_eq_zero_iff] at hid
      omega
    · rw [hcheck]
      exact ⟨nofun, selection_checked unit lits w⟩
  · rw [if_neg hid] at hcheck
    constructor
    · rintro ⟨-, hrejected⟩
      refine .inr (not_not.mp fun hnot => ?_)
      refine (hrejected hgw fun u n h => ?_).1 ?_
      · obtain ⟨rfl, hs, rfl, hpos, hle⟩ := (hspells u n).mp h
        exact hnot ⟨hs, hpos, hle⟩
      · rw [hcheck]
    · rintro (hzero | ⟨hs, hpos, hle⟩)
      · exact absurd hzero hid
      refine ⟨fun u n h => ?_, fun _ hnot => ?_⟩
      · obtain ⟨rfl, -, rfl, -⟩ := (hspells u n).mp h
        rw [hcheck, getCanId_numeral hs hle]
        rfl
      · exact absurd ((hspells t _).mpr ⟨rfl, hs, rfl, hpos, hle⟩) (hnot t _)

end

/-- The file name of node 300 selects node 44. -/
theorem not_selectsAsSpelled_300 :
    ¬ SelectsAsSpelled .stm32 ⟨0, 0⟩ true (literal "sh_nd_app300")
      (appInit blankImages ()) := by
  rintro ⟨-, hrejected⟩
  have hfind : findNd (literal "sh_nd_app300") = some (.app, literal "300") := by decide +kernel
  have hgw : ¬ GatewayFile true (literal "sh_nd_app300") := by
    intro h
    rw [findNd_of_gatewayFile h] at hfind
    exact absurd hfind nofun
  refine (hrejected hgw fun t n h => ?_).1 ?_
  · obtain ⟨s, hs, -, rfl, -, hle⟩ := spells_iff.mp h
    obtain ⟨-, rfl⟩ := Prod.mk.inj (Option.some.inj (hfind.symm.trans hs))
    exact absurd hle (by decide +kernel)
  · have hid : getCanId (literal "300") = 44 := by decide +kernel
    rw [tftpServerCheckFile_eq, fileTarget_of_not_gatewayFile hgw, hfind, Option.bind_some]
    dsimp only
    rw [hid]
    rfl

end ShGateway.NodeNames
