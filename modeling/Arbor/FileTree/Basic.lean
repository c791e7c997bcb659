import Arbor.Symbols.EntryKind

namespace Arbor

structure Metadata where
  lines : Nat
  complexity : Nat
  author : String
  deriving DecidableEq, Repr

/-- A file hierarchy. Children stand in display order; a path identifies its entry. -/
inductive FileTree
  | entry (name path : String) (kind : EntryKind) (metadata : Option Metadata)
      (children : List FileTree)

namespace FileTree

def file (name path : String) (lines : Nat) : FileTree :=
  entry name path .file (some ⟨lines, 0, ""⟩) []

def directory (name path : String) (children : List FileTree) : FileTree :=
  entry name path .directory none children

def name : FileTree → String
  | entry name _ _ _ _ => name

def path : FileTree → String
  | entry _ path _ _ _ => path

def kind : FileTree → EntryKind
  | entry _ _ kind _ _ => kind

def metadata : FileTree → Option Metadata
  | entry _ _ _ metadata _ => metadata

def children : FileTree → List FileTree
  | entry _ _ _ _ children => children

def isLeaf (tree : FileTree) : Bool :=
  tree.children.isEmpty

end FileTree

end Arbor
