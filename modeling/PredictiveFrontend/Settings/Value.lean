import PredictiveFrontend.Number.Binary64

/-!
# Values of settings

A setting is a truth value, a number, a text, a list, or a table of named settings.
-/

namespace PredictiveFrontend

/-- The value of a setting. -/
inductive SettingValue where
  | boolean (b : Bool)
  | integer (n : Int)
  | float (x : Binary64)
  | text (s : String)
  | list (items : List SettingValue)
  | table (entries : List (String × SettingValue))
  deriving Repr

namespace SettingValue

instance : Inhabited SettingValue := ⟨table []⟩

/-- The entries of a table; any other value has none. -/
def entries : SettingValue → List (String × SettingValue)
  | table entries => entries
  | _ => []

end SettingValue

end PredictiveFrontend
