import RdfStar.Data

/-!
# Match options

The two flags of a match, and how they are read from settings: names with values, of which only
known names with truth values are accepted. Every unknown name is reported before any ill-typed
value is.

* `MatchOptions` — the class of that name; `settings` — its `to_dict`.
* `ofSettings` — `from_dict`, on the settings that `Settings.ofPairs` makes of pairs.
* `merged` — the method of that name, given the flags to override.

Principal results: `ofSettings_settings` — the settings of an options value read back as that value;
`merged_of_isEmpty` — overriding nothing changes nothing.
-/

namespace RdfStar

/-- The value of a setting: a flag, or a value that is none. -/
inductive Setting where
  | flag (b : Bool)
  | other (kind : Data.Kind)
  deriving DecidableEq, Repr

def Setting.ofData : Data → Setting
  | .boolean b => .flag b
  | v => .other v.kind

/-- Names with values, in order. -/
abbrev Settings := List (String × Setting)

namespace Settings

def value? : Settings → String → Option Setting
  | [], _ => none
  | (y, v) :: rest, x => if y = x then some v else value? rest x

/-- Sets a value: at the place of the name if it is there, else at the end. -/
def put : Settings → String → Setting → Settings
  | [], x, v => [(x, v)]
  | (y, w) :: rest, x, v => if y = x then (y, v) :: rest else (y, w) :: put rest x v

/-- Settings from pairs in which a name may be repeated: it keeps its first place and takes its
last value. -/
def ofPairs (pairs : List (String × Setting)) : Settings :=
  pairs.foldl (fun settings pair => settings.put pair.1 pair.2) []

end Settings

inductive OptionError where
  | unknown (names : List String)
  | notBool (name : String) (kind : Data.Kind)
  deriving DecidableEq, Repr

def OptionError.message : OptionError → String
  | .unknown names => "Unknown match option(s): " ++ ", ".intercalate names
  | .notBool name kind => "Match option " ++ name ++ " must be a bool, got " ++ kind.name

structure MatchOptions where
  /-- A pattern variable that meets a variable matches without being bound. -/
  skipVariables : Bool := false
  /-- A match is answered by its bindings. -/
  returnBindings : Bool := false
  deriving DecidableEq, Repr

/-- Values to override flags with, where there is one. -/
structure Overrides where
  skipVariables : Option Bool := none
  returnBindings : Option Bool := none
  deriving DecidableEq, Repr

/-- Whether there is nothing to override. -/
def Overrides.isEmpty (o : Overrides) : Bool := o.skipVariables.isNone && o.returnBindings.isNone

namespace MatchOptions

def skipName : String := "skip_variable_binding"

def returnName : String := "return_bindings"

def isKnown (name : String) : Bool := name == skipName || name == returnName

/-- The options as settings, every flag stated. -/
def settings (o : MatchOptions) : Settings :=
  [(skipName, .flag o.skipVariables), (returnName, .flag o.returnBindings)]

/-- The unknown names of settings, each once, by code point. -/
def unknownNames (s : Settings) : List String :=
  ((s.map Prod.fst).filter fun name => !isKnown name).eraseDups.mergeSort fun x y => x ≤ y

/-- The first entry whose value is no flag. -/
def firstNotBool? : Settings → Option (String × Data.Kind)
  | [] => none
  | (_, .flag _) :: rest => firstNotBool? rest
  | (name, .other kind) :: _ => some (name, kind)

/-- The flag that settings give a name, or its default. -/
def flag (s : Settings) (name : String) : Bool :=
  match s.value? name with
  | some (.flag b) => b
  | _ => false

def ofSettings (s : Settings) : Except OptionError MatchOptions :=
  match unknownNames s with
  | name :: rest => .error (.unknown (name :: rest))
  | [] =>
    match firstNotBool? s with
    | some (name, kind) => .error (.notBool name kind)
    | none => .ok ⟨flag s skipName, flag s returnName⟩

/-- The options with every given override applied. -/
def merged (o : MatchOptions) (given : Overrides) : MatchOptions :=
  ⟨given.skipVariables.getD o.skipVariables, given.returnBindings.getD o.returnBindings⟩

theorem ofSettings_settings (o : MatchOptions) : ofSettings o.settings = .ok o := by
  have known : unknownNames o.settings = [] := by
    simp [unknownNames, settings, isKnown]
  rw [ofSettings, known]
  simp [firstNotBool?, settings, flag, Settings.value?, skipName, returnName]

theorem merged_of_isEmpty (o : MatchOptions) {given : Overrides} (h : given.isEmpty = true) :
    o.merged given = o := by
  simp only [Overrides.isEmpty, Bool.and_eq_true, Option.isNone_iff_eq_none] at h
  simp [merged, h]

end MatchOptions

end RdfStar
