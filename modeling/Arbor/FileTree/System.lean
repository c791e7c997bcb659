import Arbor.FileTree.Blueprint
import Arbor.Grammar.System

namespace Arbor.LSystem

variable {α β : Type} [Scalar α] [Scalar β]

def organicTips : List Word :=
  ["G[+G][-G]".toList, "G[+G]G[-G]".toList, "G[^G][&G]".toList]

def organicRules : Rules :=
  Rules.ofList [('F', .stochastic organicTips)]

def ofFileTree (tree : FileTree) (hotspots : List (Hotspot β)) (base : UInt32) : LSystem α where
  start := Step.words (tree.blueprint base hotspots)
  rules := organicRules
  passes := 1
  angle := defaultAngle
  seed := pathSeed tree.path base

end Arbor.LSystem
