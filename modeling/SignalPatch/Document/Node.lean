import Std.Data.HashMap
import SignalPatch.Document.Token

/-!
# Nodes

A document is a tree of scalars, sequences and mappings, which may carry tags.
An alias stands for a node elsewhere in the document.
-/

namespace SignalPatch

namespace Document

/-- A part of a document. -/
inductive Node where
  | scalar (tag : Option TagText) (style : ScalarStyle) (text : List Char)
  | sequence (tag : Option TagText) (items : List Node)
  | mapping (tag : Option TagText) (entries : List (Node × Node))
  | alias (anchor : Nat)

namespace Node

def empty : Node :=
  .scalar none .plain []

def tag? : Node → Option TagText
  | .scalar tag _ _ | .sequence tag _ | .mapping tag _ => tag
  | .alias _ => none

/-- Whether nothing is written, apart from a tag. -/
def isEmpty : Node → Bool
  | .scalar _ .plain [] => true
  | _ => false

/-- How many parts a node is, apart from those within: a sequence or mapping has two ends. -/
def parts : Node → Nat
  | .scalar .. | .alias _ => 1
  | .sequence .. | .mapping .. => 2

end Node

/--
The anchors of a document.  A name that is given anew stands for the new node.
The number of an anchor is the number of names before it, so that a number can
come back; then the last anchor of that number counts, also for the aliases
before it.
-/
structure Anchors where
  numbers : Std.HashMap String Nat
  count : Nat
  /-- For each number the anchor that counts. -/
  last : Std.HashMap Nat Nat
  /-- The nodes of the anchors, by their place among the anchors. -/
  nodes : Std.HashMap Nat Node

namespace Anchors

def empty : Anchors :=
  ⟨∅, 0, ∅, ∅⟩

/-- A new anchor, which gets its node later. -/
def declare (anchors : Anchors) (name : List Char) : Anchors :=
  let ⟨numbers, count, last, nodes⟩ := anchors
  let number := numbers.size
  ⟨numbers.insert (String.ofList name) number, count + 1, last.insert number count, nodes⟩

def number? (anchors : Anchors) (name : List Char) : Option Nat :=
  anchors.numbers[String.ofList name]?

def place (anchors : Anchors) (anchor : Nat) (node : Node) : Anchors :=
  let ⟨numbers, count, last, nodes⟩ := anchors
  ⟨numbers, count, last, nodes.insert anchor node⟩

def node? (anchors : Anchors) (number : Nat) : Option Node :=
  anchors.last[number]?.bind (fun anchor => anchors.nodes[anchor]?)

end Anchors

end Document

/-- A document: its root, the nodes that aliases stand for, and its size. -/
structure Document where
  root : Document.Node
  anchors : Document.Anchors
  /-- How many scalars, aliases and ends of sequences and mappings there are. -/
  parts : Nat

def Document.empty : Document :=
  ⟨.empty, .empty, 1⟩

end SignalPatch
