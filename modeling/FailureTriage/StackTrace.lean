import FailureTriage.Pattern.Search
import FailureTriage.Text.Find
import FailureTriage.Text.Lines

/-!
# Stack traces

The frames of a stack trace that name a source file and a line, and the classes they lead through.

* `StackFrame.parseAll` reads the frames of a trace in order.
* `StackClasses.ofTrace` lists the classes of the frames, each once, in the order of first mention.
-/

namespace FailureTriage

/-- A frame of a stack trace. -/
structure StackFrame where
  /-- What stands before the method: a class with its package and the names of nested classes. -/
  qualifier : String
  method : String
  file : String
  line : UInt32
  deriving DecidableEq

namespace StackFrame

/-- A character of a qualifier. -/
def inQualifier (c : Char) : Bool :=
  Text.isWord c || c == '.' || c == '$'

/-- A character of the name of a class loader or module. -/
def inLoader (c : Char) : Bool :=
  inQualifier c || c == '@' || c == '+' || c == '-'

/-- A character of a method name. -/
def inMethod (c : Char) : Bool :=
  Text.isWord c || c == '$' || c == '<' || c == '>'

/-- A character of a file name before its extension. -/
def inFile (c : Char) : Bool :=
  Text.isWord c || c == '$'

open Pattern in
/-- The name of a class loader or of a module, with the slash after it. -/
def loader : Pattern :=
  sequence [zeroOrMore inLoader, word "/"]

open Pattern in
/-- A line with a frame: at most two loaders, qualifier, method, file and line number. -/
def pattern : Pattern :=
  sequence [
    .textStart, blanks, word "at", blanks1, opt (sequence [loader, opt loader]),
    .group 1 (oneOrMore inQualifier), word ".", .group 2 (oneOrMore inMethod), word "(",
    .group 3 (sequence [oneOrMore inFile, word ".java"]), word ":",
    .group 4 (oneOrMore Text.isDecimalDigit), word ")"]

/-- The frame on a line of a stack trace. -/
def ofLine? (line : List Char) : Option StackFrame := do
  let m ← pattern.find? line
  let qualifier ← m.group? 1
  let method ← m.group? 2
  let file ← m.group? 3
  let number ← Text.readNat? Text.maxWord32 (← m.group? 4)
  some ⟨String.ofList qualifier, String.ofList method, String.ofList file, UInt32.ofNat number⟩

/-- The frames of a stack trace, in order. -/
def parseAll (stackTrace : String) : List StackFrame :=
  (Text.lines stackTrace.toList).filterMap ofLine?

/-- The outermost class with its package. -/
def className (frame : StackFrame) : String :=
  String.ofList (Text.beforeFirst '$' frame.qualifier.toList)

/-- The outermost class without its package. -/
def simpleClass (frame : StackFrame) : String :=
  String.ofList (Text.afterLast '.' frame.className.toList)

end StackFrame

/-- The classes that a stack trace leads through, in the order of their first mention. -/
structure StackClasses where
  /-- Class names without a package. -/
  simple : List String := []
  /-- Class names with their package. -/
  qualified : List String := []
  deriving DecidableEq

namespace StackClasses

/-- The list with one more name, if it does not hold the name. -/
def addOnce (names : List String) (name : String) : List String :=
  if names.contains name then names else names ++ [name]

/-- The classes with those of one more frame, unless its class is a test class or has no name. -/
def addFrame (isTestClass : String → Bool) (classes : StackClasses) (frame : StackFrame) :
    StackClasses :=
  let simple := frame.simpleClass
  if simple = "" || isTestClass simple then classes
  else
    let name := frame.className
    { simple := addOnce classes.simple simple
      qualified :=
        if name.toList.contains '.' then addOnce classes.qualified name else classes.qualified }

/-- The classes of a stack trace that are not test classes. -/
def ofTrace (isTestClass : String → Bool) (stackTrace : String) : StackClasses :=
  (StackFrame.parseAll stackTrace).foldl (addFrame isTestClass) {}

end StackClasses

end FailureTriage
