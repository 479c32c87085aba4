import FailureTriage.Text.Find

/-!
# Packages of production classes

Guesses at the package of the production classes that a test class tests.
-/

namespace FailureTriage

/--
The packages that a test class may test, the most specific first: its own package without the
segments for tests, or with `service` in their place.
-/
def productionPackages (testClass : String) : List String :=
  match Text.beforeLast? '.' testClass.toList with
  | none => []
  | some package =>
    let swap (fragment replacement : String) (text : List Char) : List Char :=
      Text.replace fragment.toList replacement.toList text
    let guesses := [
      swap ".test." "." (swap ".test.junit." "." package),
      swap ".test.junit.search" ".service" package,
      swap ".test.junit" ".service" package,
      swap ".test" "" package]
    ((guesses.map String.ofList).filter (· ≠ "")).eraseDups

end FailureTriage
