import KeyRules.Json.Basic
import Std.Data.HashMap
import Std.Data.HashSet
import Std.Data.TreeMap
import Std.Data.TreeSet

/-!
# KeyRules — candidates

Conditions are tested on anything that has keys. Only whether a key is there counts, never the
value that belongs to it. Of the JSON values an object has its names as keys, and every other
value has none.

* `HasKeys` — the class, with instances for JSON values, lists of fields, maps and sets.
-/

namespace KeyRules

/-- A type of candidates for conditions. -/
class HasKeys (γ : Type) where
  /-- Whether a candidate has a key. -/
  hasKey : γ → String → Bool

export HasKeys (hasKey)

namespace HasKeys

instance {α : Type} : HasKeys (List (String × α)) where
  hasKey fields name := fields.any fun field => field.1 = name

instance : HasKeys Json where
  hasKey
    | .object fields, name => hasKey fields name
    | _, _ => false

instance {α : Type} : HasKeys (Std.HashMap String α) where
  hasKey entries name := entries.contains name

instance {α : Type} : HasKeys (Std.TreeMap String α) where
  hasKey entries name := entries.contains name

instance : HasKeys (Std.HashSet String) where
  hasKey keys name := keys.contains name

instance : HasKeys (Std.TreeSet String) where
  hasKey keys name := keys.contains name

end HasKeys

end KeyRules
