namespace Dynarec68k.Path

def isAbsolute (path : String) : Bool :=
  path.toList.head? == some '/'

def join (base path : String) : String :=
  if isAbsolute path then path
  else if base.isEmpty || base.toList.getLast? == some '/' then base ++ path
  else base ++ "/" ++ path

/-- Slashes and single dots at the end of a path name nothing; a leading slash or dot does. The
path is given from its end. -/
def trimEnd : List Char → List Char
  | '/' :: c :: rest => trimEnd (c :: rest)
  | '.' :: '/' :: rest => trimEnd ('/' :: rest)
  | path => path

def parent (path : String) : String :=
  String.ofList (trimEnd ((trimEnd path.toList.reverse).dropWhile (· != '/'))).reverse

def names (path : String) : List String :=
  (path.splitOn "/").filter (· != "")

/-- A slash at the end asks for a directory. -/
def asksDirectory (path : String) : Bool :=
  path.toList.getLast? == some '/'

/-- The names on the way to what a path reads. A slash at its end looks into the last of them. -/
def namesToRead (path : String) : List String :=
  if asksDirectory path then names path ++ ["."] else names path

/-- The names on the way to what a path writes. The name before a slash at its end need not be
there: whatever it may be, the path means a directory. -/
def namesToWrite (path : String) : List String :=
  if asksDirectory path then (names path).dropLast ++ ["."] else names path

end Dynarec68k.Path
