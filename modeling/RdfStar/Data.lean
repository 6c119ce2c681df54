import RdfStar.Text.Quoted

/-!
# Data

Values that are no terms: nothing, truth values, numbers, texts, and lists and mappings of such
values. They occur where a term or a flag belongs, and in the messages that say so.
-/

namespace RdfStar

inductive Data where
  | none
  | boolean (b : Bool)
  | integer (n : Int)
  /-- A number with a fraction or an exponent, by its numeral. -/
  | real (numeral : String)
  | text (s : String)
  | list (items : List Data)
  | mapping (entries : List (String × Data))
  deriving Repr

namespace Data

/-! ## Kinds -/

inductive Kind where
  | none
  | boolean
  | integer
  | real
  | text
  | list
  | mapping
  deriving DecidableEq, Repr

/-- The name of a kind, as messages give it. -/
def Kind.name : Kind → String
  | .none => "NoneType"
  | .boolean => "bool"
  | .integer => "int"
  | .real => "float"
  | .text => "str"
  | .list => "list"
  | .mapping => "dict"

def kind : Data → Kind
  | .none => .none
  | .boolean _ => .boolean
  | .integer _ => .integer
  | .real _ => .real
  | .text _ => .text
  | .list _ => .list
  | .mapping _ => .mapping

/-! ## Equality -/

mutual

/-- Decides whether two values are the same, which takes the same kind. -/
def decEq (v w : Data) : Decidable (v = w) :=
  if h : v.kind = w.kind then
    match v, w, h with
    | .none, .none, _ => isTrue rfl
    | .boolean b, .boolean c, _ => decidable_of_iff (b = c) (by simp)
    | .integer m, .integer n, _ => decidable_of_iff (m = n) (by simp)
    | .real x, .real y, _ => decidable_of_iff (x = y) (by simp)
    | .text s, .text t, _ => decidable_of_iff (s = t) (by simp)
    | .list vs, .list ws, _ => @decidable_of_iff _ (vs = ws) (by simp) (decEqItems vs ws)
    | .mapping es, .mapping fs, _ => @decidable_of_iff _ (es = fs) (by simp) (decEqEntries es fs)
  else isFalse fun same => h (same ▸ rfl)

def decEqItems : (vs ws : List Data) → Decidable (vs = ws)
  | [], [] => isTrue rfl
  | [], _ :: _ | _ :: _, [] => isFalse nofun
  | v :: vs, w :: ws =>
    match decEq v w, decEqItems vs ws with
    | isTrue hv, isTrue hvs => isTrue (by rw [hv, hvs])
    | isFalse hv, _ => isFalse fun h => hv (List.cons.inj h).1
    | _, isFalse hvs => isFalse fun h => hvs (List.cons.inj h).2

def decEqEntries : (es fs : List (String × Data)) → Decidable (es = fs)
  | [], [] => isTrue rfl
  | [], _ :: _ | _ :: _, [] => isFalse nofun
  | (x, v) :: es, (y, w) :: fs =>
    match decEq v w, decEqEntries es fs with
    | isTrue hv, isTrue hes => decidable_of_iff (x = y) (by simp [hv, hes])
    | isFalse hv, _ => isFalse (by simp [hv])
    | _, isFalse hes => isFalse (by simp [hes])

end

instance : DecidableEq Data := decEq

/-! ## Quotation -/

def commaSeparated (texts : List String) : String := ", ".intercalate texts

mutual

/-- The value as messages quote it. -/
def quoted : Data → String
  | .none => "None"
  | .boolean true => "True"
  | .boolean false => "False"
  | .integer n => toString n
  | .real numeral => numeral
  | .text s => Text.quote s
  | .list items => "[" ++ commaSeparated (quotedItems items) ++ "]"
  | .mapping entries => "\x7b" ++ commaSeparated (quotedEntries entries) ++ "\x7d"

def quotedItems : List Data → List String
  | [] => []
  | v :: rest => v.quoted :: quotedItems rest

def quotedEntries : List (String × Data) → List String
  | [] => []
  | (name, v) :: rest => (Text.quote name ++ ": " ++ v.quoted) :: quotedEntries rest

end

/-- The value as it stands inside the text of a quad: a text as it is, anything else quoted. -/
def shown : Data → String
  | .text s => s
  | v => v.quoted

end Data

end RdfStar
