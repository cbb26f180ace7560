import InstrumentFlow.Asset.Json
import InstrumentFlow.Asset.Packed
import InstrumentFlow.Config

/-!
# Assets and limits in files

* `Directory` -- the files of one directory, by name;
* `Directory.read`, `Directory.write` -- access with the failures of the file system;
* `isJsonName` -- whether a name asks for the JSON form;
* `Definition.load`, `Definition.save`, `Config.load` -- definitions and limits in files;
* `FileAccess` -- a way to reach files; `Directory.access` is the one through a `Directory`.
-/

namespace InstrumentFlow

/-! ## 1. Directories -/

/-- A flat directory: names and contents. -/
structure Directory where
  files : List (String × List UInt8) := []

/-- What a path leads to. -/
inductive Place where
  | file (name : String)
  /-- The path goes on behind a name. -/
  | behind (name : String)
  | directory
  | elsewhere
  deriving DecidableEq, Repr

/-- The steps of a path, without those that stay where they are. -/
def pathSteps (path : String) : List String :=
  (path.splitOn "/").filter fun step => step != "" && step != "."

/-- The place of a path, seen from a flat directory. Nothing outside the directory is known but the
    directories above it. -/
def placeOf (path : String) : Place :=
  match pathSteps path with
  | [] => if path = "" then .elsewhere else .directory
  | name :: more =>
    if (name :: more).all (· == "..") then .directory
    else if path.startsWith "/" then .elsewhere
    else if more.isEmpty && !path.endsWith "/" && !path.endsWith "/." then .file name
    else .behind name

namespace Directory

def lookup? (d : Directory) (name : String) : Option (List UInt8) := d.files.lookup name

/-- Why nothing can be reached behind a name: files are no directories. -/
def faultBehind (d : Directory) (name : String) : FileFault :=
  if (d.lookup? name).isSome then .notDirectory else .notFound

def read (d : Directory) (path : String) : Except FileFault (List UInt8) :=
  match placeOf path with
  | .file name =>
    match d.lookup? name with
    | some bytes => .ok bytes
    | none => .error .notFound
  | .behind name => .error (d.faultBehind name)
  | .directory => .error .isDirectory
  | .elsewhere => .error .notFound

/-- Replaces or adds a file. -/
def write (d : Directory) (path : String) (bytes : List UInt8) : Except FileFault Directory :=
  match placeOf path with
  | .file name => .ok ⟨(name, bytes) :: d.files.filter (·.1 != name)⟩
  | .behind name => .error (d.faultBehind name)
  | .directory => .error .isDirectory
  | .elsewhere => .error .notFound

end Directory

/-! ## 2. Names -/

/-- The part of a file name after its last point, unless the point stands first. -/
def extension? (name : List Char) : Option (List Char) :=
  if name = "..".toList then none
  else
    match name.reverse.dropWhile (· != '.') with
    | '.' :: before =>
      if before.isEmpty then none else some (name.reverse.takeWhile (· != '.')).reverse
    | _ => none

/-- The extension is `json` in any mixture of upper and lower case. -/
def isJsonName (path : String) : Bool :=
  match (pathSteps path).getLast? with
  | some name =>
    match extension? name.toList with
    | some e => e.map Char.toLower == "json".toList
    | none => false
  | none => false

/-! ## 3. Definitions and limits -/

namespace Definition

/-- The content of a file with a given name. -/
def fileContent (d : Definition) (path : String) : List UInt8 :=
  if isJsonName path then Text.encodeUtf8 d.toJsonText else d.toBytes

/-- The sound definition in the content of a file with a given name. -/
def ofFileContent (path : String) (content : List UInt8) : Except AssetError Definition :=
  if isJsonName path then
    match Text.decodeUtf8? content with
    | some text => ofJsonText text
    | none => .error .decode
  else ofBytes content

/-- The sound definition in a file with a given name, as far as the file could be read. -/
def ofFile (path : String) (content : Except FileFault (List UInt8)) :
    Except AssetError Definition :=
  match content with
  | .ok content => ofFileContent path content
  | .error fault => .error (.file path fault)

/-- **Loads a sound definition**; the name of the file settles its form. -/
def load (dir : Directory) (path : String) : Except AssetError Definition :=
  ofFile path (dir.read path)

/-- **Saves a definition**, sound or not. -/
def save (d : Definition) (dir : Directory) (path : String) : Except AssetError Directory :=
  match dir.write path (d.fileContent path) with
  | .ok dir => .ok dir
  | .error fault => .error (.file path fault)

end Definition

/-- Limits in a file with a given name, as far as the file could be read. -/
def Config.ofFile (path : String) (content : Except FileFault (List UInt8)) :
    Except ConfigError Config :=
  match content with
  | .error fault => .error (.file path fault)
  | .ok content =>
    match Text.decodeUtf8? content with
    | some text => Config.ofText text
    | none => .error (.file path .notUtf8)

/-- **Loads limits.** -/
def Config.load (dir : Directory) (path : String) : Except ConfigError Config :=
  Config.ofFile path (dir.read path)

/-! ## 4. Access -/

/-- A way to reach files, by the two operations that can fail. -/
structure FileAccess (m : Type → Type) where
  read (path : String) : m (Except FileFault (List UInt8))
  write (path : String) (content : List UInt8) : m (Except FileFault Unit)

/-- The files of a directory that is passed along. -/
def Directory.access : FileAccess (StateM Directory) where
  read path := fun d => (d.read path, d)
  write path content := fun d =>
    match d.write path content with
    | .ok changed => (.ok (), changed)
    | .error fault => (.error fault, d)

end InstrumentFlow
