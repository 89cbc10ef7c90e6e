import ShGateway.ConfigGrammar
import ShGateway.ConfigSave

/-!
What `config_validate` accepts, what it reports otherwise, and what it leaves in
the table.
-/

namespace ShGateway.ConfigValidate

open ShGateway.ConfigFormat
open ShGateway.ConfigGrammar
open ShGateway.ConfigParser
open ShGateway.ConfigSave
open ShGateway.ConfigSystem
open ShGateway.Crc
open ShGateway.Lib.ByteWords
open ShGateway.Lib.NorFlash
open ShGateway.Platform

/-! ## Rows and entries -/

/-- An entry for a row of the table. -/
def Matches (e : ConfigEntry) (x : LocatedEntry) : Prop :=
  x.entry.key = e.key ∧ x.entry.value.length = e.size

instance (e : ConfigEntry) (x : LocatedEntry) : Decidable (Matches e x) :=
  inferInstanceAs (Decidable (_ ∧ _))

/-- No earlier row has the same key and length. -/
def FirstOfKind (table : List ConfigEntry) (i : Nat) (e : ConfigEntry) : Prop :=
  ∀ (j : Nat) (f : ConfigEntry), j < i → table[j]? = some f →
    ¬ (f.key = e.key ∧ f.size = e.size)

section

variable {x : LocatedEntry} (hkey : ∀ b ∈ x.entry.key, b ≠ 0)

include hkey in
theorem findEntry_eq_none_iff (table : List ConfigEntry) :
    findEntry (x.entry.key ++ [0]) x.entry.value.length x.address table = none ↔
      ∀ e ∈ table, ¬ Matches e x := by
  induction table with
  | nil => simp [findEntry]
  | cons e table ih =>
      simp only [findEntry, nameMatches_iff hkey, List.forall_mem_cons]
      by_cases he : x.entry.key = e.key ∧ x.entry.value.length = e.size
      · rw [if_pos he]
        exact iff_of_false (Option.some_ne_none _) fun h => h.1 he
      · rw [if_neg he, Option.map_eq_none_iff, ih]
        exact ⟨fun h => ⟨he, h⟩, And.right⟩

include hkey in
theorem findEntry_getElem {table table' : List ConfigEntry} {i : Nat} {e : ConfigEntry}
    (hfind : findEntry (x.entry.key ++ [0]) x.entry.value.length x.address table = some table')
    (he : table[i]? = some e) (hfirst : FirstOfKind table i e) :
    table'[i]? = some (if Matches e x then { e with dataAbsAddress := x.address } else e) := by
  induction table generalizing table' i with
  | nil => simp at he
  | cons f table ih =>
      simp only [findEntry, nameMatches_iff hkey] at hfind
      by_cases hf : x.entry.key = f.key ∧ x.entry.value.length = f.size
      · rw [if_pos hf] at hfind
        obtain rfl := Option.some.inj hfind
        rcases i with _ | i
        · obtain rfl := Option.some.inj he
          rw [if_pos (show Matches f x from hf)]
          rfl
        · have hother : ¬ Matches e x := fun h =>
            hfirst 0 f (Nat.succ_pos i) rfl ⟨hf.1.symm.trans h.1, hf.2.symm.trans h.2⟩
          rw [if_neg hother]
          exact he
      · rw [if_neg hf] at hfind
        obtain ⟨rest, hrest, rfl⟩ := Option.map_eq_some_iff.mp hfind
        rcases i with _ | i
        · obtain rfl := Option.some.inj he
          rw [if_neg (show ¬ Matches f x from hf)]
          rfl
        · have hrow : table[i]? = some e := he
          rw [List.getElem?_cons_succ]
          exact ih hrest hrow fun j g hj hg => hfirst (j + 1) g (Nat.succ_lt_succ hj) hg

include hkey in
theorem acceptEntry_getElem {s : Store} {i : Nat} {e : ConfigEntry}
    (he : s.table[i]? = some e) (hfirst : FirstOfKind s.table i e) :
    (acceptEntry s x).table[i]? =
      some (if Matches e x then { e with dataAbsAddress := x.address } else e) := by
  rw [acceptEntry]
  rcases hfind : findEntry (x.entry.key ++ [0]) x.entry.value.length x.address s.table with
    _ | table
  · have hnone := (findEntry_eq_none_iff hkey s.table).mp hfind e (List.mem_of_getElem? he)
    rw [if_neg hnone]
    exact he
  · exact findEntry_getElem hkey hfind he hfirst

end

theorem acceptEntry_rows (s : Store) (x : LocatedEntry) :
    List.Forall₂ SameRow s.table (acceptEntry s x).table := by
  rw [acceptEntry]
  split
  · rename_i table hfind
    exact findEntry_rows hfind
  · exact sameRows_refl _

theorem foldl_acceptEntry_rows (s : Store) (es : List LocatedEntry) :
    List.Forall₂ SameRow s.table (es.foldl acceptEntry s).table := by
  induction es generalizing s with
  | nil => exact sameRows_refl _
  | cons x es ih => exact sameRows_trans (acceptEntry_rows s x) (ih _)

theorem FirstOfKind.sameRows {table table' : List ConfigEntry} {i : Nat} {e e' : ConfigEntry}
    (h : FirstOfKind table i e) (hrows : List.Forall₂ SameRow table table')
    (he : SameRow e e') : FirstOfKind table' i e' := by
  intro j f' hj hf'
  have hj' : j < table.length := by
    rw [hrows.length_eq]
    exact (List.getElem?_eq_some_iff.mp hf').1
  have hsame := (List.forall₂_iff_get.mp hrows).2 j hj' (by rw [← hrows.length_eq]; exact hj')
  have hf := h j table[j] hj (List.getElem?_eq_getElem hj')
  obtain ⟨hlt, rfl⟩ := List.getElem?_eq_some_iff.mp hf'
  simp only [List.get_eq_getElem] at hsame
  rw [hsame.key, hsame.size, he.key, he.size]
  exact hf

/-- Address of the value of the last entry for a row, `address` if there is none. -/
def lastAddress (e : ConfigEntry) (address : Nat) (es : List LocatedEntry) : Nat :=
  ((es.filter fun x => Matches e x).getLast?.map LocatedEntry.address).getD address

/-- After some entries every first row of its kind has the address of the last
entry for it. -/
theorem foldl_acceptEntry_getElem {es : List LocatedEntry}
    (hwf : ∀ x ∈ es, x.entry.WellFormed) {s : Store} {i : Nat} {e : ConfigEntry}
    (he : s.table[i]? = some e) (hfirst : FirstOfKind s.table i e) :
    ∃ e', (es.foldl acceptEntry s).table[i]? = some e' ∧ SameRow e e' ∧
      e'.dataAbsAddress = lastAddress e e.dataAbsAddress es := by
  induction es using List.reverseRecOn with
  | nil => exact ⟨e, he, .refl e, rfl⟩
  | append_singleton es x ih =>
      obtain ⟨e', he', hsame, haddress⟩ := ih fun y hy => hwf y (by simp [hy])
      have hkey := (hwf x (by simp)).key_ne_nul
      have hfirst' := hfirst.sameRows (foldl_acceptEntry_rows s es) hsame
      have hlast := acceptEntry_getElem hkey he' hfirst'
      have hmatches : Matches e' x ↔ Matches e x := by
        rw [Matches, Matches, hsame.key, hsame.size]
      rw [List.foldl_append, List.foldl_cons, List.foldl_nil, hlast]
      refine ⟨_, rfl, ?_⟩
      by_cases hx : Matches e x
      · rw [if_pos (hmatches.mpr hx)]
        refine ⟨⟨hsame.key, hsame.size, hsame.null⟩, ?_⟩
        rw [lastAddress, List.filter_append, List.filter_cons_of_pos (by simpa using hx)]
        simp
      · rw [if_neg (mt hmatches.mp hx)]
        refine ⟨hsame, haddress.trans ?_⟩
        rw [lastAddress, lastAddress, List.filter_append,
          List.filter_cons_of_neg (by simpa using hx)]
        simp

/-! ## The verdict -/

/-- The size word is within the limits of `config_validate`. -/
def SizeOk (n : Nat) : Prop := n % 4 = 0 ∧ 8 ≤ n ∧ n ≤ 4 + cfgSize + 4

/-- The checksum word follows the data area and is right. -/
def CrcOk (unit : CrcUnit) (m : Mem) (n : Nat) : Prop :=
  ofLe (readBytes m (cfgOrigin + (4 + n)) 4) =
    (crc32 unit (readBytes m cfgOrigin (4 + n))).toNat

instance (n : Nat) : Decidable (SizeOk n) := inferInstanceAs (Decidable (_ ∧ _ ∧ _))

instance (unit : CrcUnit) (m : Mem) (n : Nat) : Decidable (CrcOk unit m n) :=
  inferInstanceAs (Decidable (_ = _))

/-- `config_validate` with the whole data area parsed at once. -/
def validateOnePass (unit : CrcUnit) (s : Store) : ConfigSts × Store :=
  let n := ofLe (readBytes s.dev.mem cfgOrigin 4)
  let s := { s with configValid := false }
  if ¬ SizeOk n then
    (.wrongSizeConfig, { s with crcDr := crc32Start unit (readBytes s.dev.mem cfgOrigin 4) })
  else
    let s := { s with crcDr := crc32 unit (readBytes s.dev.mem cfgOrigin (4 + n)) }
    if ¬ CrcOk unit s.dev.mem n then (.crcInvalid, s)
    else
      finishParse (parseData areaOrigin (readBytes s.dev.mem areaOrigin n)
        { s with parser := {} })

theorem configValidate_onePass (unit : CrcUnit) (s : Store) :
    configValidate unit s = validateOnePass unit s := by
  rw [validateOnePass]
  by_cases hsize : SizeOk (ofLe (readBytes s.dev.mem cfgOrigin 4))
  · obtain ⟨halign, hmin, hmax⟩ := hsize
    rw [if_neg (not_not.mpr ⟨halign, hmin, hmax⟩),
      configValidate_eq rfl hmin (by omega) halign]
    rfl
  · rw [if_pos hsize, configValidate_wrongSize rfl]
    rw [SizeOk] at hsize
    omega

section

variable (unit : CrcUnit) (s : Store)

theorem validateOnePass_wrongSize (hsize : ¬ SizeOk (ofLe (readBytes s.dev.mem cfgOrigin 4))) :
    (validateOnePass unit s).1 = .wrongSizeConfig := by
  rw [validateOnePass, if_pos hsize]

theorem validateOnePass_crcInvalid (hsize : SizeOk (ofLe (readBytes s.dev.mem cfgOrigin 4)))
    (hcrc : ¬ CrcOk unit s.dev.mem (ofLe (readBytes s.dev.mem cfgOrigin 4))) :
    (validateOnePass unit s).1 = .crcInvalid := by
  rw [validateOnePass, if_neg (not_not.mpr hsize)]
  exact congrArg Prod.fst (if_pos hcrc)

/-- The store the parser starts from. -/
def parserStart (s : Store) : Store :=
  { s with
    configValid := false
    crcDr := crc32 unit
      (readBytes s.dev.mem cfgOrigin (4 + ofLe (readBytes s.dev.mem cfgOrigin 4)))
    parser := {} }

theorem validateOnePass_parse (hsize : SizeOk (ofLe (readBytes s.dev.mem cfgOrigin 4)))
    (hcrc : CrcOk unit s.dev.mem (ofLe (readBytes s.dev.mem cfgOrigin 4))) :
    validateOnePass unit s = finishParse (parseData areaOrigin
      (readBytes s.dev.mem areaOrigin (ofLe (readBytes s.dev.mem cfgOrigin 4)))
      (parserStart unit s)) := by
  rw [validateOnePass, if_neg (not_not.mpr hsize)]
  exact if_neg (not_not.mpr hcrc)

end

theorem finishParse_area {pos : Nat} {area : List UInt8} {es : List LocatedEntry}
    (h : DataArea pos area es) {s : Store} (hparser : s.parser = {}) :
    finishParse (parseData pos area s) = (.ok, acceptImage s es) := by
  rw [parseData_area h hparser]
  simp only [finishParse, acceptImage]
  rw [foldl_acceptEntry_idle hparser]
  simp

theorem configValidate_eq_ok_iff (unit : CrcUnit) (s : Store) :
    let n := ofLe (readBytes s.dev.mem cfgOrigin 4)
    (configValidate unit s).1 = .ok ↔ SizeOk n ∧ CrcOk unit s.dev.mem n ∧
      ∃ es, DataArea areaOrigin (readBytes s.dev.mem areaOrigin n) es := by
  intro n
  rw [configValidate_onePass]
  by_cases hsize : SizeOk n
  · by_cases hcrc : CrcOk unit s.dev.mem n
    · rw [validateOnePass_parse unit s hsize hcrc]
      rcases dataArea_or_firstViolation areaOrigin (readBytes s.dev.mem areaOrigin n) with
        ⟨es, hes⟩ | ⟨sts, hsts⟩
      · rw [finishParse_area hes rfl]
        exact iff_of_true rfl ⟨hsize, hcrc, es, hes⟩
      · rw [finishParse_firstViolation hsts rfl]
        refine iff_of_false hsts.ne_ok ?_
        rintro ⟨-, -, es, hes⟩
        have hok := congrArg Prod.fst (@finishParse_area _ _ _ hes (parserStart unit s) rfl)
        rw [finishParse_firstViolation hsts rfl] at hok
        exact hsts.ne_ok hok
    · rw [validateOnePass_crcInvalid unit s hsize hcrc]
      exact iff_of_false (by decide) fun h => hcrc h.2.1
  · rw [validateOnePass_wrongSize unit s hsize]
    exact iff_of_false (by decide) fun h => hsize h.1

theorem configValidate_accepted {unit : CrcUnit} {s : Store} {es : List LocatedEntry}
    (hok : (configValidate unit s).1 = .ok)
    (hes : DataArea areaOrigin
      (readBytes s.dev.mem areaOrigin (ofLe (readBytes s.dev.mem cfgOrigin 4))) es) :
    configValidate unit s = (.ok, acceptImage (parserStart unit s) es) := by
  obtain ⟨hsize, hcrc, -⟩ := (configValidate_eq_ok_iff unit s).mp hok
  rw [configValidate_onePass, validateOnePass_parse unit s hsize hcrc,
    finishParse_area hes rfl]

/-- `config_validate` is a parser for the documented format: its status is that of
the first violation, and the rows get the addresses of the last entries for them. -/
theorem configValidate_spec (unit : CrcUnit) (s : Store) :
    let m := s.dev.mem
    let n := ofLe (readBytes m cfgOrigin 4)
    let area := readBytes m areaOrigin n
    let r := configValidate unit s
    (r.1 = .ok ↔ SizeOk n ∧ CrcOk unit m n ∧ ∃ es, DataArea areaOrigin area es) ∧
      (¬ SizeOk n → r.1 = .wrongSizeConfig) ∧
      (SizeOk n → ¬ CrcOk unit m n → r.1 = .crcInvalid) ∧
      (SizeOk n → CrcOk unit m n → (¬ ∃ es, DataArea areaOrigin area es) →
        ∀ sts, FirstViolation area sts ↔ r.1 = sts) ∧
      (∀ es, r.1 = .ok → DataArea areaOrigin area es → ∀ i e, s.table[i]? = some e →
        e.dataAbsAddress = 0 → FirstOfKind s.table i e →
        ∃ e', r.2.table[i]? = some e' ∧ e'.dataAbsAddress = lastAddress e 0 es) ∧
      r = validateOnePass unit s := by
  intro m n area r
  have honePass : r = validateOnePass unit s := configValidate_onePass unit s
  refine ⟨configValidate_eq_ok_iff unit s, fun hsize => ?_, fun hsize hcrc => ?_,
    fun hsize hcrc hnone sts => ?_, ?_, honePass⟩
  · rw [honePass, validateOnePass_wrongSize unit s hsize]
  · rw [honePass, validateOnePass_crcInvalid unit s hsize hcrc]
  · have hreports : ∀ sts, FirstViolation area sts → r.1 = sts := by
      intro sts hsts
      rw [honePass, validateOnePass_parse unit s hsize hcrc]
      exact finishParse_firstViolation hsts rfl
    refine ⟨hreports sts, ?_⟩
    rintro rfl
    obtain ⟨sts, hsts⟩ := (dataArea_or_firstViolation areaOrigin area).resolve_left hnone
    rw [hreports sts hsts]
    exact hsts
  · intro es hok hes i e he hzero hfirst
    obtain ⟨e', he', -, haddress⟩ := @foldl_acceptEntry_getElem es hes.wellFormed
      (parserStart unit s) i e he hfirst
    refine ⟨e', ?_, hzero ▸ haddress⟩
    rw [show r = _ from configValidate_accepted hok hes]
    exact he'

/-- A row `p` of one byte. -/
def byteRow : ConfigEntry where
  key := [112]
  size := 1
  dataAbsAddress := 0
  data := none
  key_ne_nul := by simp
  size_lt := by decide
  data_length := by simp

theorem exists_byteImage :
    ∃ m, ∀ table, (configValidate .stm32 (powerUp m table)).1 = .ok ∧
      DataArea areaOrigin (readBytes m areaOrigin (ofLe (readBytes m cfgOrigin 4)))
        (locate areaOrigin [stored byteRow]) := by
  have hstorable : ∀ e ∈ (powerUp (fun _ => 0xFF) [byteRow]).table, Storable e := by
    simp only [powerUp, List.mem_singleton, forall_eq]
    exact ⟨by decide, by decide, by decide⟩
  obtain ⟨s, hok⟩ := @writeFresh_fits .stm32 _ hstorable (by decide)
  obtain ⟨-, hsaved⟩ := writeFresh_ok hok
  have himage : IsImage .stm32 s.dev.mem (imageArea [stored byteRow])
      (locate areaOrigin [stored byteRow]) :=
    hsaved.isImage (wellFormed_stored hstorable) (List.cons_ne_nil _ _)
  refine ⟨s.dev.mem, fun table => ⟨?_, ?_⟩⟩
  · rw [@configValidate_of_isImage .stm32 (powerUp s.dev.mem table) _ _ himage]
  · obtain ⟨hword, harea, -⟩ := himage.parts
    rw [hword, ofLe_le32 (by decide), harea]
    exact himage.area_entries

/-- Of two equal rows only the first gets the address. -/
theorem equal_rows_address :
    ∃ (s : Store) (es : List LocatedEntry) (i : Nat) (e : ConfigEntry),
      (configValidate .stm32 s).1 = .ok ∧
      DataArea areaOrigin
        (readBytes s.dev.mem areaOrigin (ofLe (readBytes s.dev.mem cfgOrigin 4))) es ∧
      s.table[i]? = some e ∧ e.dataAbsAddress = 0 ∧
      ∀ e' : ConfigEntry, (configValidate .stm32 s).2.table[i]? = some e' →
        e'.dataAbsAddress ≠ lastAddress e 0 es := by
  obtain ⟨m, hm⟩ := exists_byteImage
  obtain ⟨hok, hes⟩ := hm [byteRow, byteRow]
  refine ⟨powerUp m [byteRow, byteRow], locate areaOrigin [stored byteRow], 1, byteRow, hok, hes,
    rfl, rfl, ?_⟩
  intro e' he'
  rw [configValidate_accepted hok hes] at he'
  obtain rfl : byteRow = e' := Option.some.inj he'
  decide

/-! ## Unknown entries -/

/-- The entries that are for no row. -/
def unknown (table : List ConfigEntry) (es : List LocatedEntry) : List LocatedEntry :=
  es.filter fun x => ∀ e ∈ table, ¬ Matches e x

/-- A call that reports an entry with a length. -/
def reports (length : LocatedEntry → Nat) (x : LocatedEntry) : NotFoundCall :=
  ⟨x.entry.key ++ [0], x.address, length x⟩

theorem unknown_sameRows {table table' : List ConfigEntry}
    (h : List.Forall₂ SameRow table table') (es : List LocatedEntry) :
    unknown table' es = unknown table es := by
  have hmatches : ∀ x, (∀ e ∈ table', ¬ Matches e x) ↔ ∀ e ∈ table, ¬ Matches e x := by
    intro x
    induction h with
    | nil => rfl
    | cons hrow _ ih =>
        rw [List.forall_mem_cons, List.forall_mem_cons, ih, Matches, Matches, hrow.key,
          hrow.size]
  simp only [unknown, hmatches]

theorem foldl_acceptEntry_notFound {es : List LocatedEntry}
    (hwf : ∀ x ∈ es, x.entry.WellFormed) (s : Store) :
    (es.foldl acceptEntry s).notFound =
      s.notFound ++ (unknown s.table es).map (reports fun _ => 2) := by
  induction es generalizing s with
  | nil => simp [unknown]
  | cons x es ih =>
      have hkey := (hwf x (by simp)).key_ne_nul
      have hnone := findEntry_eq_none_iff hkey s.table
      rw [List.foldl_cons, ih fun y hy => hwf y (by simp [hy]),
        unknown_sameRows (acceptEntry_rows s x), acceptEntry, unknown]
      rcases hfind : findEntry (x.entry.key ++ [0]) x.entry.value.length x.address s.table with
        _ | table
      · rw [unknown, List.filter_cons_of_pos (by simpa using hnone.mp hfind)]
        simp [reports]
      · have hknown : ¬ ∀ e ∈ s.table, ¬ Matches e x := by
          rw [← hnone, hfind]
          exact Option.some_ne_none table
        rw [unknown, List.filter_cons_of_neg (by simpa using hknown)]

/-- The callback gets the length of the value only where that is 2. -/
theorem notFound_iff {unit : CrcUnit} {s : Store} {es : List LocatedEntry}
    (hok : (configValidate unit s).1 = .ok)
    (hes : DataArea areaOrigin
      (readBytes s.dev.mem areaOrigin (ofLe (readBytes s.dev.mem cfgOrigin 4))) es) :
    (configValidate unit s).2.notFound = s.notFound ++
        (unknown s.table es).map (reports fun x => x.entry.value.length) ↔
      ∀ x ∈ unknown s.table es, x.entry.value.length = 2 := by
  have hcalls : (configValidate unit s).2.notFound =
      s.notFound ++ (unknown s.table es).map (reports fun _ => 2) := by
    rw [configValidate_accepted hok hes]
    exact foldl_acceptEntry_notFound hes.wellFormed (parserStart unit s)
  rw [hcalls, List.append_cancel_left_eq, List.map_inj_left]
  refine forall₂_congr fun x _ => ?_
  simp [reports, eq_comm]

theorem notFound_iff_byteImage :
    ∃ m es, (unknown [] es).map (fun x => x.entry.key) = [[112]] ∧
      ((configValidate .stm32 (powerUp m [])).2.notFound =
          (unknown [] es).map (reports fun x => x.entry.value.length) ↔
        ∀ x ∈ unknown [] es, x.entry.value.length = 2) := by
  obtain ⟨m, hm⟩ := exists_byteImage
  exact ⟨m, _, by decide, notFound_iff (hm []).1 (hm []).2⟩

/-- An unknown entry of one byte is reported with the length 2. -/
theorem notFound_byte :
    ∃ m es, (configValidate .stm32 (powerUp m [])).1 = .ok ∧
      DataArea areaOrigin (readBytes m areaOrigin (ofLe (readBytes m cfgOrigin 4))) es ∧
      (configValidate .stm32 (powerUp m [])).2.notFound = [⟨[112, 0], cfgOrigin + 8, 2⟩] ∧
      (unknown [] es).map (reports fun x => x.entry.value.length) =
        [⟨[112, 0], cfgOrigin + 8, 1⟩] := by
  obtain ⟨m, hm⟩ := exists_byteImage
  obtain ⟨hok, hes⟩ := hm []
  refine ⟨m, _, hok, hes, ?_, by decide⟩
  rw [configValidate_accepted hok hes]
  rfl

end ShGateway.ConfigValidate
