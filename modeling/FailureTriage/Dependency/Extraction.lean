import FailureTriage.Dependency.Rule
import FailureTriage.Names.Set

/-!
# Dependencies of a source text

The set of all types that the dependency rules find, with or without a package.
-/

namespace FailureTriage

/-- The types that a source text depends on. -/
def dependenciesOf (source : String) : NameSet :=
  DependencyRule.table.foldl (fun found rule => found.insertAll (rule.typesIn source.toList)) ∅

namespace NameSet

/-- The last dotted segments of the names. -/
def simpleNames (set : NameSet) : NameSet :=
  ofList (set.names.map fun name => String.ofList (Text.afterLast '.' name.toList))

/-- The names with a package. -/
def qualified (set : NameSet) : List String :=
  set.names.filter fun name => name.toList.contains '.'

end NameSet

end FailureTriage
