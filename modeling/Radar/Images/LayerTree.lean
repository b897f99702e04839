import Radar.Base.Arrange
import Radar.Base.GoText
import Radar.Base.KeyedFold

/- internal/images/inspector.go: the file tree of an image, from the tar entries of its layers. -/
namespace LayerTree
open Arrange GoText KeyedFold

inductive TypeFlag where
  | dir | symlink | link | reg | other
  deriving DecidableEq

/-- The text of the file mode and of the time are those that the header gives. -/
structure Header where
  name : String
  typeflag : TypeFlag
  size : Int
  permissions : String
  mode : Nat
  modTime : String
  linkname : String

inductive FileType where
  | file | dir | symlink
  deriving DecidableEq

/-- A cleaned absolute path is the list of its names; the root has none. -/
abbrev Path := List String

structure Node where
  name : String
  path : Path
  type : FileType
  size : Int
  permissions : String
  mode : Nat
  modTime : String
  linkTarget : String
  deriving DecidableEq

abbrev FileMap := List Node

section Paths

/-- One step of filepath.Clean below an absolute path. -/
def cleanPiece (path : Path) (piece : String) : Path := if piece = "" ∨ piece = "." then path
  else if piece = ".." then path.dropLast
  else path ++ [piece]

def clean (text : String) : Path := (split '/' text).foldl cleanPiece []

def joinPath (dir : Path) (name : String) : Path := (split '/' name).foldl cleanPiece dir

def base (path : Path) : String := path.getLast?.getD "/"

def dir (path : Path) : Path := path.dropLast

def entryPath (h : Header) : Path := clean ("/" ++ trimPrefix h.name "./")

end Paths

section Entries

def lookup (m : FileMap) (path : Path) : Option Node := m.find? fun n => n.path == path

def dirNode (path : Path) : Node := ⟨base path, path, .dir, 0, "", 0, "", ""⟩

/-- The names of the path are read from its end: the parent has one less. -/
def ensureUp (m : FileMap) : List String → FileMap
  | [] => m
  | _ :: up =>
    if up = [] then m
    else if (lookup m up.reverse).isSome then m
    else ensureUp (put Node.path m (dirNode up.reverse)) up

def ensureParentDirs (m : FileMap) (path : Path) : FileMap := ensureUp m path.reverse

/-- No cleaned path begins with the root's path and another slash, so of the root only itself goes. -/
def deleteFromTree (m : FileMap) (path : Path) : FileMap :=
  m.filter fun n => n.path != path && !(path != [] && path.isPrefixOf n.path)

def typeOf : TypeFlag → FileType
  | .dir => .dir
  | .symlink => .symlink
  | _ => .file

def fileNode (h : Header) (path : Path) : Node :=
  ⟨base path, path, typeOf h.typeflag, h.size, h.permissions, h.mode, h.modTime,
    if typeOf h.typeflag = .symlink then h.linkname else ""⟩

structure Build where
  fileMap : FileMap
  totalFiles : Nat
  totalSize : Int

def readEntry (b : Build) (h : Header) : Build := let path := entryPath h
  match cutPrefix (base path) ".wh." with
  | some after => { b with fileMap := deleteFromTree b.fileMap (joinPath (dir path) after) }
  | none =>
    if path = [] then b
    else
      { fileMap := put Node.path (ensureParentDirs b.fileMap path) (fileNode h path)
        totalFiles := b.totalFiles + 1
        totalSize := if typeOf h.typeflag = .file then b.totalSize + h.size else b.totalSize }

def maxFileCount : Nat := 50000

def readLayer (b : Build) : List Header → Build
  | [] => b
  | h :: rest => if maxFileCount ≤ b.totalFiles then b else readLayer (readEntry b h) rest

def rootNode : Node := ⟨"/", [], .dir, 0, "", 0, "", ""⟩

def readLayers (layers : List (List Header)) : Build := layers.foldl readLayer ⟨[rootNode], 0, 0⟩

end Entries

section Tree

inductive FileNode where
  | mk (node : Node) (children : List FileNode)

def lessChild (a b : Node) : Bool := if a.type = .dir ∧ b.type ≠ .dir then true
  else if a.type ≠ .dir ∧ b.type = .dir then false
  else decide (a.name < b.name)

/-- What the flat map holds directly under a path, where this is a directory of the map. -/
def childrenOf (m : FileMap) (path : Path) : List Node := match lookup m path with
  | some parent =>
    if parent.type = .dir then m.filter fun n => n.path != [] && dir n.path == path else []
  | none => []

def link (m : FileMap) : Nat → Node → FileNode
  | 0, n => .mk n []
  | depth + 1, n => .mk n ((sortStable lessChild (childrenOf m n.path)).map (link m depth))

/-- The tree under the root. No path is deeper than the longest of the map. -/
def linkTree (m : FileMap) : FileNode := link m ((m.map (·.path.length)).foldr max 0) rootNode

def buildFilesystemTree (layers : List (List Header)) : FileNode × Nat × Int := let b := readLayers layers
  (linkTree b.fileMap, b.totalFiles, b.totalSize)

end Tree

mutual

def FileNode.nodes : FileNode → List Node
  | .mk node children => node :: nodesOf children

def nodesOf : List FileNode → List Node
  | [] => []
  | child :: rest => child.nodes ++ nodesOf rest

end

end LayerTree
