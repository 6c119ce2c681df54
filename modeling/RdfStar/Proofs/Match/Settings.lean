import Mathlib.Data.List.Nodup
import RdfStar.Match.Options
import RdfStar.Proofs.Term.Lists

/-!
# Settings that are accepted

Settings are read in two checks: the names first, all of them together, and then the values, one
after the other. An unknown name anywhere therefore comes before an ill-typed value anywhere; which
names are reported depends on the set of names alone, and which value is reported on the order of
the settings. What is accepted does not depend on the order.

Principal results: `eq_unknownNames_iff` — the unknown names are the one list of them in ascending
order; `firstNotBool?_eq_some_iff` — the first value that is no flag; `ofSettings_eq_ok_iff`,
`ofSettings_eq_unknown_iff`, `ofSettings_eq_notBool_iff` — the three answers;
`MatchOptions.ofSettings_decides_by_names_first` — the answers for a mapping of names to data.
-/

namespace RdfStar

/-! ## Values -/

namespace Setting

theorem ofData_eq_flag_iff {v : Data} {b : Bool} : ofData v = .flag b ↔ v = .boolean b := by
  cases v <;> simp [ofData]

/-- Whatever is no truth value is no flag, the numbers 0 and 1 included. -/
theorem ofData_eq_other_iff {v : Data} {kind : Data.Kind} :
    ofData v = .other kind ↔ v.kind = kind ∧ ∀ b, v ≠ .boolean b := by
  cases v <;> simp [ofData, Data.kind]

end Setting

namespace Settings

/-- The settings of a mapping of names to data. -/
def ofEntries (entries : List (String × Data)) : Settings :=
  entries.map fun e => (e.1, .ofData e.2)

theorem names_ofEntries (entries : List (String × Data)) :
    (ofEntries entries).map Prod.fst = entries.map Prod.fst := by
  simp [ofEntries]

theorem mem_ofEntries_flag_iff {entries : List (String × Data)} {name : String} {b : Bool} :
    (name, .flag b) ∈ ofEntries entries ↔ (name, .boolean b) ∈ entries := by
  simp only [ofEntries, List.mem_map, Prod.mk.injEq, Prod.exists, Setting.ofData_eq_flag_iff]
  constructor
  · rintro ⟨_, _, hmem, rfl, rfl⟩
    exact hmem
  · intro hmem
    exact ⟨name, .boolean b, hmem, rfl, rfl⟩

theorem forall_mem_ofEntries_flag_iff {entries : List (String × Data)} :
    (∀ e ∈ ofEntries entries, ∃ b, e.2 = .flag b) ↔ ∀ e ∈ entries, ∃ b, e.2 = .boolean b := by
  simp only [ofEntries, List.forall_mem_map, Setting.ofData_eq_flag_iff]

/-! ## Lookup by name -/

theorem value?_eq_none_iff {s : Settings} {name : String} :
    s.value? name = none ↔ name ∉ s.map Prod.fst := by
  induction s with
  | nil => simp [value?]
  | cons e rest ih =>
    obtain ⟨y, v⟩ := e
    by_cases h : y = name
    · simp [value?, h]
    · simp [value?, h, ih, Ne.symm h]

theorem mem_of_value? {s : Settings} {name : String} {v : Setting} (h : s.value? name = some v) :
    (name, v) ∈ s := by
  induction s with
  | nil => cases h
  | cons e rest ih =>
    obtain ⟨y, w⟩ := e
    by_cases hy : y = name
    · simp only [value?, hy, if_true, Option.some.injEq] at h
      simp [hy, h]
    · simp only [value?, hy, if_false] at h
      exact List.mem_cons_of_mem _ (ih h)

/-- Where no name is repeated, an entry is what a lookup of its name finds. -/
theorem value?_eq_some_iff {s : Settings} (hnames : (s.map Prod.fst).Nodup) {name : String}
    {v : Setting} : s.value? name = some v ↔ (name, v) ∈ s := by
  constructor
  · exact mem_of_value?
  · intro hmem
    cases hvalue : s.value? name with
    | none => exact absurd (List.mem_map_of_mem hmem) (value?_eq_none_iff.mp hvalue)
    | some w =>
      have hpair := List.inj_on_of_nodup_map hnames (mem_of_value? hvalue) hmem rfl
      rw [(Prod.mk.inj hpair).2]

end Settings

namespace MatchOptions

/-! ## The check of the names -/

theorem isKnown_iff {name : String} :
    isKnown name = true ↔ name = skipName ∨ name = returnName := by
  simp [isKnown]

theorem mem_unknownNames_iff {s : Settings} {name : String} :
    name ∈ unknownNames s ↔ name ∈ s.map Prod.fst ∧ isKnown name = false := by
  rw [unknownNames, List.mem_mergeSort, List.mem_eraseDups, List.mem_filter]
  simp

/-- The unknown names are listed in ascending order, so none is listed twice. -/
theorem pairwise_unknownNames (s : Settings) : (unknownNames s).Pairwise (· < ·) := by
  let unsorted := ((s.map Prod.fst).filter fun name => !isKnown name).eraseDups
  have hsorted : (unknownNames s).Pairwise fun x y => x ≤ y := by
    let le := fun x y : String => decide (x ≤ y)
    have htrans (x y z : String) (hxy : le x y = true) (hyz : le y z = true) : le x z = true :=
      decide_eq_true (String.le_trans (of_decide_eq_true hxy) (of_decide_eq_true hyz))
    have htotal (x y : String) : (le x y || le y x) = true := by
      simpa [le] using String.le_total x y
    exact (List.pairwise_mergeSort htrans htotal unsorted).imp of_decide_eq_true
  have hnodup : (unknownNames s).Nodup :=
    (List.mergeSort_perm unsorted _).nodup_iff.mpr (nodup_eraseDups _)
  refine hsorted.imp₂ (fun x y hle hne => ?_) hnodup
  exact String.not_le.mp fun hge => hne (String.le_antisymm hle hge)

/-- **The unknown names are the one list of them in ascending order.** -/
theorem eq_unknownNames_iff {s : Settings} {names : List String} :
    unknownNames s = names ↔ names.Pairwise (· < ·) ∧
      ∀ name, name ∈ names ↔ name ∈ s.map Prod.fst ∧ isKnown name = false := by
  constructor
  · rintro rfl
    exact ⟨pairwise_unknownNames s, fun name => mem_unknownNames_iff⟩
  · rintro ⟨hnames, hmem⟩
    have hunknown := pairwise_unknownNames s
    have hne {x y : String} (h : x < y) : x ≠ y := fun heq => String.lt_irrefl y (heq ▸ h)
    have hperm : (unknownNames s).Perm names :=
      (List.perm_ext_iff_of_nodup (hunknown.imp hne) (hnames.imp hne)).mpr fun name =>
        mem_unknownNames_iff.trans (hmem name).symm
    refine hperm.eq_of_pairwise (fun x y _ _ hxy hyx => ?_) hunknown hnames
    exact absurd (String.lt_trans hxy hyx) (String.lt_irrefl x)

theorem unknownNames_eq_nil_iff {s : Settings} :
    unknownNames s = [] ↔ ∀ e ∈ s, isKnown e.1 = true := by
  rw [List.eq_nil_iff_forall_not_mem]
  simp only [mem_unknownNames_iff, not_and, Bool.not_eq_false, List.forall_mem_map]

/-! ## The check of the values -/

theorem firstNotBool?_eq_none_iff {s : Settings} :
    firstNotBool? s = none ↔ ∀ e ∈ s, ∃ b, e.2 = .flag b := by
  fun_induction firstNotBool? s with
  | case1 => simp
  | case2 name b rest ih => simp [ih]
  | case3 name kind rest => simp

/-- **The first value that is no flag** is the one before which there are flags only. -/
theorem firstNotBool?_eq_some_iff {s : Settings} {name : String} {kind : Data.Kind} :
    firstNotBool? s = some (name, kind) ↔
      ∃ before after, s = before ++ (name, .other kind) :: after ∧
        ∀ e ∈ before, ∃ b, e.2 = .flag b := by
  constructor
  · intro h
    fun_induction firstNotBool? s with
    | case1 => cases h
    | case2 y b rest ih =>
      obtain ⟨before, after, rfl, hflags⟩ := ih h
      refine ⟨(y, .flag b) :: before, after, rfl, ?_⟩
      simpa using hflags
    | case3 y k rest =>
      cases h
      exact ⟨[], rest, rfl, by simp⟩
  · rintro ⟨before, after, rfl, hflags⟩
    induction before with
    | nil => rfl
    | cons e before ih =>
      obtain ⟨y, v⟩ := e
      obtain ⟨⟨b, hb⟩, hbefore⟩ := List.forall_mem_cons.mp hflags
      cases hb
      exact ih hbefore

/-! ## The three answers -/

variable {s : Settings}

/-- What settings are judged by: unknown names first, then values that are no flags. -/
theorem ofSettings_eq (s : Settings) :
    ofSettings s =
      if unknownNames s = [] then
        match firstNotBool? s with
        | some (name, kind) => .error (.notBool name kind)
        | none => .ok ⟨flag s skipName, flag s returnName⟩
      else .error (.unknown (unknownNames s)) := by
  rw [ofSettings]
  cases unknownNames s <;> rfl

theorem ofSettings_eq_unknown_iff {names : List String} :
    ofSettings s = .error (.unknown names) ↔ names ≠ [] ∧ unknownNames s = names := by
  rw [ofSettings_eq]
  by_cases hknown : unknownNames s = []
  · rw [if_pos hknown, hknown]
    cases firstNotBool? s <;> simp [eq_comm]
  · rw [if_neg hknown]
    constructor
    · rintro ⟨⟩
      exact ⟨hknown, rfl⟩
    · rintro ⟨-, rfl⟩
      rfl

theorem ofSettings_eq_notBool_iff {name : String} {kind : Data.Kind} :
    ofSettings s = .error (.notBool name kind) ↔
      unknownNames s = [] ∧ firstNotBool? s = some (name, kind) := by
  rw [ofSettings_eq]
  cases firstNotBool? s <;> by_cases hknown : unknownNames s = [] <;>
    simp [hknown, Prod.ext_iff]

theorem ofSettings_eq_ok_iff {o : MatchOptions} :
    ofSettings s = .ok o ↔ unknownNames s = [] ∧ firstNotBool? s = none ∧
      flag s skipName = o.skipVariables ∧ flag s returnName = o.returnBindings := by
  obtain ⟨skip, ret⟩ := o
  rw [ofSettings_eq]
  cases firstNotBool? s <;> by_cases hknown : unknownNames s = [] <;> simp [hknown]

/-! ## Flags -/

/-- What a mapping says of a flag: the truth value under its name, or false if there is no entry of
that name. -/
def StatesFlag (entries : List (String × Data)) (name : String) (b : Bool) : Prop :=
  (name, .boolean b) ∈ entries ∨ name ∉ entries.map Prod.fst ∧ b = false

/-- Where all values are flags, a flag is what is said of it. -/
theorem flag_ofEntries_iff {entries : List (String × Data)}
    (hnames : (entries.map Prod.fst).Nodup) (hvalues : ∀ e ∈ entries, ∃ b, e.2 = .boolean b)
    {name : String} {b : Bool} :
    flag (.ofEntries entries) name = b ↔ StatesFlag entries name b := by
  have hdistinct : ((Settings.ofEntries entries).map Prod.fst).Nodup := by
    rwa [Settings.names_ofEntries]
  unfold flag StatesFlag
  cases hvalue : (Settings.ofEntries entries).value? name with
  | none =>
    have habsent := Settings.value?_eq_none_iff.mp hvalue
    rw [Settings.names_ofEntries] at habsent
    have hnot : (name, Data.boolean b) ∉ entries := fun hmem =>
      habsent (List.mem_map_of_mem hmem)
    simp [habsent, hnot, eq_comm]
  | some v =>
    have hmem := Settings.mem_of_value? hvalue
    obtain ⟨given, rfl⟩ := Settings.forall_mem_ofEntries_flag_iff.mpr hvalues _ hmem
    have hpresent : name ∈ entries.map Prod.fst := by
      rw [← Settings.names_ofEntries]
      exact List.mem_map_of_mem hmem
    rw [← Settings.mem_ofEntries_flag_iff, ← Settings.value?_eq_some_iff hdistinct, hvalue]
    simp [hpresent]

/-! ## Mappings of names to data -/

theorem unknownNames_ofEntries_eq_nil_iff {entries : List (String × Data)} :
    unknownNames (.ofEntries entries) = [] ↔
      ∀ e ∈ entries, e.1 = skipName ∨ e.1 = returnName := by
  rw [unknownNames_eq_nil_iff, Settings.ofEntries]
  simp only [List.forall_mem_map, isKnown_iff]

theorem firstNotBool?_ofEntries_eq_some_iff {entries : List (String × Data)} {name : String}
    {kind : Data.Kind} :
    firstNotBool? (.ofEntries entries) = some (name, kind) ↔
      ∃ before v after, entries = before ++ (name, v) :: after ∧
        (v.kind = kind ∧ ∀ b, v ≠ .boolean b) ∧ ∀ e ∈ before, ∃ b, e.2 = .boolean b := by
  rw [firstNotBool?_eq_some_iff]
  constructor
  · rintro ⟨before', after', hsplit, hflags⟩
    obtain ⟨before, rest, rfl, rfl, hrest⟩ := List.map_eq_append_iff.mp hsplit
    obtain ⟨⟨y, v⟩, after, rfl, hentry, -⟩ := List.map_eq_cons_iff.mp hrest
    obtain ⟨rfl, hv⟩ := Prod.mk.inj hentry
    exact ⟨before, v, after, rfl, Setting.ofData_eq_other_iff.mp hv,
      Settings.forall_mem_ofEntries_flag_iff.mp hflags⟩
  · rintro ⟨before, v, after, rfl, hv, hflags⟩
    refine ⟨Settings.ofEntries before, Settings.ofEntries after, ?_,
      Settings.forall_mem_ofEntries_flag_iff.mpr hflags⟩
    simp [Settings.ofEntries, Setting.ofData_eq_other_iff.mpr hv]

/-- **A mapping is accepted exactly if all its names are known and all its values are truth
values**, and each flag is then what the mapping says of it. -/
theorem ofSettings_ofEntries_eq_ok_iff {entries : List (String × Data)}
    (hnames : (entries.map Prod.fst).Nodup) {o : MatchOptions} :
    ofSettings (.ofEntries entries) = .ok o ↔
      (∀ e ∈ entries, (e.1 = skipName ∨ e.1 = returnName) ∧ ∃ b, e.2 = .boolean b) ∧
        StatesFlag entries skipName o.skipVariables ∧
        StatesFlag entries returnName o.returnBindings := by
  rw [ofSettings_eq_ok_iff, unknownNames_ofEntries_eq_nil_iff, firstNotBool?_eq_none_iff,
    Settings.forall_mem_ofEntries_flag_iff]
  constructor
  · rintro ⟨hknown, hvalues, hskip, hreturn⟩
    exact ⟨fun e he => ⟨hknown e he, hvalues e he⟩, (flag_ofEntries_iff hnames hvalues).mp hskip,
      (flag_ofEntries_iff hnames hvalues).mp hreturn⟩
  · rintro ⟨hgood, hskip, hreturn⟩
    have hvalues : ∀ e ∈ entries, ∃ b, e.2 = .boolean b := fun e he => (hgood e he).2
    exact ⟨fun e he => (hgood e he).1, hvalues, (flag_ofEntries_iff hnames hvalues).mpr hskip,
      (flag_ofEntries_iff hnames hvalues).mpr hreturn⟩

/-- A mapping that could be accepted is. -/
theorem exists_ofSettings_ofEntries_iff {entries : List (String × Data)} :
    (∃ o, ofSettings (.ofEntries entries) = .ok o) ↔
      ∀ e ∈ entries, (e.1 = skipName ∨ e.1 = returnName) ∧ ∃ b, e.2 = .boolean b := by
  simp only [ofSettings_eq_ok_iff, unknownNames_ofEntries_eq_nil_iff, firstNotBool?_eq_none_iff,
    Settings.forall_mem_ofEntries_flag_iff]
  constructor
  · rintro ⟨o, hknown, hvalues, -⟩ e he
    exact ⟨hknown e he, hvalues e he⟩
  · intro h
    exact ⟨⟨_, _⟩, fun e he => (h e he).1, fun e he => (h e he).2, rfl, rfl⟩

/-- **The unknown names of a mapping are reported whenever there are any, all of them in ascending
order**, whatever the values. -/
theorem ofSettings_ofEntries_eq_unknown_iff {entries : List (String × Data)} {names : List String} :
    ofSettings (.ofEntries entries) = .error (.unknown names) ↔
      names ≠ [] ∧ names.Pairwise (· < ·) ∧
        ∀ x, x ∈ names ↔ x ∈ entries.map Prod.fst ∧ x ≠ skipName ∧ x ≠ returnName := by
  rw [ofSettings_eq_unknown_iff, eq_unknownNames_iff, Settings.names_ofEntries]
  simp [isKnown]

theorem exists_ofSettings_ofEntries_eq_unknown_iff {entries : List (String × Data)} :
    (∃ names, ofSettings (.ofEntries entries) = .error (.unknown names)) ↔
      ∃ e ∈ entries, e.1 ≠ skipName ∧ e.1 ≠ returnName := by
  constructor
  · rintro ⟨names, h⟩
    obtain ⟨hne, -, hmem⟩ := ofSettings_ofEntries_eq_unknown_iff.mp h
    obtain ⟨x, hx⟩ := List.exists_mem_of_ne_nil names hne
    obtain ⟨hname, hunknown⟩ := (hmem x).mp hx
    obtain ⟨e, he, rfl⟩ := List.mem_map.mp hname
    exact ⟨e, he, hunknown⟩
  · rintro ⟨e, he, hskip, hreturn⟩
    refine ⟨_, ofSettings_eq_unknown_iff.mpr ⟨fun hnil => ?_, rfl⟩⟩
    rcases unknownNames_ofEntries_eq_nil_iff.mp hnil e he with h | h
    · exact hskip h
    · exact hreturn h

/-- What a mapping says of a flag does not depend on the order of its entries. -/
theorem StatesFlag.perm {entries other : List (String × Data)} (h : other.Perm entries)
    {name : String} {b : Bool} : StatesFlag other name b ↔ StatesFlag entries name b := by
  unfold StatesFlag
  rw [h.mem_iff, (h.map Prod.fst).mem_iff]

/-- **Settings are accepted exactly if every name is one of the two and every value is a truth
value; each flag is then the value under its name, and false if there is none.** If there are
unknown names they are reported, all of them by code point and without repetitions, whatever the
values are and in whatever order they stand; otherwise the first value that is no truth value is
reported. So settings in another order are accepted with the same options or rejected as well. -/
theorem ofSettings_decides_by_names_first (entries : List (String × Data))
    (hnames : (entries.map Prod.fst).Nodup) :
    (skipName = "skip_variable_binding" ∧ returnName = "return_bindings" ∧
      (∀ names, OptionError.message (.unknown names) =
        "Unknown match option(s): " ++ ", ".intercalate names) ∧
      ∀ name kind, OptionError.message (.notBool name kind) =
        "Match option " ++ name ++ " must be a bool, got " ++ kind.name) ∧
    ((∃ o, ofSettings (.ofEntries entries) = .ok o) ↔
      ∀ e ∈ entries, (e.1 = skipName ∨ e.1 = returnName) ∧ ∃ b, e.2 = .boolean b) ∧
    (∀ o, ofSettings (.ofEntries entries) = .ok o →
      (∀ b, (skipName, .boolean b) ∈ entries → o.skipVariables = b) ∧
      (skipName ∉ entries.map Prod.fst → o.skipVariables = false) ∧
      (∀ b, (returnName, .boolean b) ∈ entries → o.returnBindings = b) ∧
      (returnName ∉ entries.map Prod.fst → o.returnBindings = false)) ∧
    ((∃ names, ofSettings (.ofEntries entries) = .error (.unknown names)) ↔
      ∃ e ∈ entries, e.1 ≠ skipName ∧ e.1 ≠ returnName) ∧
    (∀ names, ofSettings (.ofEntries entries) = .error (.unknown names) ↔
      names ≠ [] ∧ names.Pairwise (· < ·) ∧
        ∀ x, x ∈ names ↔ x ∈ entries.map Prod.fst ∧ x ≠ skipName ∧ x ≠ returnName) ∧
    (∀ name kind, ofSettings (.ofEntries entries) = .error (.notBool name kind) ↔
      (∀ e ∈ entries, e.1 = skipName ∨ e.1 = returnName) ∧
        ∃ before v after, entries = before ++ (name, v) :: after ∧
          (v.kind = kind ∧ ∀ b, v ≠ .boolean b) ∧ ∀ e ∈ before, ∃ b, e.2 = .boolean b) ∧
    (∀ other : List (String × Data),
      (∀ x, x ∈ other.map Prod.fst ↔ x ∈ entries.map Prod.fst) →
        ∀ names, ofSettings (.ofEntries other) = .error (.unknown names) ↔
          ofSettings (.ofEntries entries) = .error (.unknown names)) ∧
    ∀ other : List (String × Data), other.Perm entries →
      ∀ o, ofSettings (.ofEntries other) = .ok o ↔ ofSettings (.ofEntries entries) = .ok o := by
  refine ⟨⟨rfl, rfl, fun _ => rfl, fun _ _ => rfl⟩, exists_ofSettings_ofEntries_iff, fun o ho => ?_,
    exists_ofSettings_ofEntries_eq_unknown_iff, fun names => ofSettings_ofEntries_eq_unknown_iff,
    fun name kind => ?_, fun other hsame names => ?_, fun other hperm o => ?_⟩
  · obtain ⟨hgood, -, -⟩ := (ofSettings_ofEntries_eq_ok_iff hnames).mp ho
    have hvalues : ∀ e ∈ entries, ∃ b, e.2 = .boolean b := fun e he => (hgood e he).2
    obtain ⟨-, -, hskip, hreturn⟩ := ofSettings_eq_ok_iff.mp ho
    have hflag (name : String) (b : Bool) (h : StatesFlag entries name b) :
        flag (.ofEntries entries) name = b := (flag_ofEntries_iff hnames hvalues).mpr h
    rw [← hskip, ← hreturn]
    exact ⟨fun b hb => hflag _ b (.inl hb), fun h => hflag _ _ (.inr ⟨h, rfl⟩),
      fun b hb => hflag _ b (.inl hb), fun h => hflag _ _ (.inr ⟨h, rfl⟩)⟩
  · rw [ofSettings_eq_notBool_iff, unknownNames_ofEntries_eq_nil_iff,
      firstNotBool?_ofEntries_eq_some_iff]
  · simp only [ofSettings_ofEntries_eq_unknown_iff, hsame]
  · have hother : (other.map Prod.fst).Nodup := (hperm.map Prod.fst).nodup_iff.mpr hnames
    rw [ofSettings_ofEntries_eq_ok_iff hother, ofSettings_ofEntries_eq_ok_iff hnames,
      StatesFlag.perm hperm, StatesFlag.perm hperm]
    simp only [hperm.mem_iff]

/-- Two unknown names around a flag that is the number 1, not in ascending order; the same flag
alone, after one that is a truth value; and both flags in either order. -/
theorem ofSettings_decides_by_names_first_ones :
    let one : String × Data := (skipName, .integer 1)
    let on : String × Data := (returnName, .boolean true)
    let off : String × Data := (skipName, .boolean false)
    let unknown : List (String × Data) := [("z", .boolean true), one, ("Z", .list [])]
    (unknown.map Prod.fst).Nodup ∧ ([on, one].map Prod.fst).Nodup ∧ ([on, off].map Prod.fst).Nodup ∧
      ofSettings (.ofEntries unknown) = .error (.unknown ["Z", "z"]) ∧
      ofSettings (.ofEntries unknown.reverse) = .error (.unknown ["Z", "z"]) ∧
      ofSettings (.ofEntries [on, one]) = .error (.notBool skipName .integer) ∧
      ofSettings (.ofEntries [off, on]) = .ok ⟨false, true⟩ := by
  intro one on off unknown
  have hunknown : (unknown.map Prod.fst).Nodup := by decide
  have hone : ([on, one].map Prod.fst).Nodup := by decide
  have hoff : ([on, off].map Prod.fst).Nodup := by decide
  obtain ⟨-, -, -, -, hnames, -, hset, -⟩ := ofSettings_decides_by_names_first unknown hunknown
  obtain ⟨-, -, -, -, -, hvalue, -, -⟩ := ofSettings_decides_by_names_first [on, one] hone
  obtain ⟨-, haccepted, hflags, -, -, -, -, horder⟩ :=
    ofSettings_decides_by_names_first [on, off] hoff
  have hreported : ofSettings (.ofEntries unknown) = .error (.unknown ["Z", "z"]) := by
    refine (hnames _).mpr ⟨by decide, by decide, fun x => ?_⟩
    simp only [unknown, one, skipName, returnName, List.map_cons, List.map_nil, List.mem_cons,
      List.not_mem_nil, or_false]
    constructor
    · rintro (rfl | rfl) <;> simp
    · rintro ⟨rfl | rfl | rfl, hskip, -⟩
      · exact .inr rfl
      · exact absurd rfl hskip
      · exact .inl rfl
  refine ⟨hunknown, hone, hoff, hreported, (hset unknown.reverse (by simp) _).mpr hreported, ?_, ?_⟩
  · refine (hvalue _ _).mpr ⟨by simp [on, one], [on], .integer 1, [], rfl, ⟨rfl, by simp⟩, ?_⟩
    simp [on]
  · obtain ⟨o, ho⟩ := haccepted.mpr (by simp [on, off])
    obtain ⟨hskip, -, hreturn, -⟩ := hflags o ho
    have hoptions : o = ⟨false, true⟩ := by
      obtain ⟨skip, ret⟩ := o
      rw [mk.injEq]
      exact ⟨hskip false (by simp [off]), hreturn true (by simp [on])⟩
    rw [← hoptions]
    exact (horder [off, on] (List.Perm.swap on off []) o).mpr ho

end MatchOptions

end RdfStar
