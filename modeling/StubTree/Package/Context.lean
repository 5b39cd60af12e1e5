import StubTree.Job
import StubTree.Namespace
import StubTree.Stub.Body
import StubTree.Text.Segments

/-!
A package of stubs in the making: the root below which it is written, the namespaces that have been
written to, and what has been counted. Contributions to a namespace are added to the end of its file
and never changed again; the header comes with the first of them.
-/

namespace StubTree.Package

open Metadata Files

structure Context where
  root : String
  /-- The namespaces for which there was anything to write, in ascending order. -/
  touched : List String := []
  processed : Nat := 0
  failed : Nat := 0
  written : Nat := 0
deriving Repr

/-- A context together with the files it is about. -/
structure Site where
  tree : Tree
  context : Context
deriving Repr

namespace Site

def onFiles {α : Type} (action : Action α) : Job Site α :=
  Job.focus Site.tree (fun tree site => { site with tree := tree }) (Job.act .access action)

def onContext (f : Context → Context) : Job Site Unit :=
  Job.modify fun site => { site with context := f site.context }

end Site

def header : String :=
  "# Auto-generated Python type stubs\n" ++
  "# Generated by stubgen\n" ++
  "\n" ++
  "from __future__ import annotations\n" ++
  "from typing import Any, List, Set, Dict, Tuple, Optional, Union, Callable, ClassVar, overload\n" ++
  "from enum import Enum\n" ++
  "from datetime import datetime\n" ++
  "\n"

def rootBanner : String :=
  "# Auto-generated Python stubs root\n" ++
  "# Import all namespaces\n"

/-- The texts of those types that have one. -/
def stubTexts (types : List TypeInfo) : List String := types.filterMap (Stub.text? 0)

/-- What a source adds to a namespace. -/
def contribution (first : Bool) (source : String) (texts : List String) : String :=
  (if first then header else "") ++ "# From source: " ++ source ++ "\n\n" ++
    String.join (texts.map (· ++ "\n"))

/-- Writes the stubs of types to a namespace. The result is the number of types written. The
namespace counts as touched also if the writing fails. -/
def append (home source : String) (types : List TypeInfo) : Job Site Nat := do
  let context := (← Job.get).context
  let first := !context.touched.contains home
  Site.onContext fun c => { c with touched := Text.insertSorted home c.touched }
  Job.report (types.flatMap Stub.events)
  let texts := stubTexts types
  Site.onFiles (Action.createDirectories (Namespace.directory context.root home))
  Site.onFiles
    (Action.append (Namespace.stubPath context.root home) (bytes (contribution first source texts)))
  Job.report [.contributed home source texts.length]
  return texts.length

def markerFile : String := "__init__.py"

/-- The directories of a namespace from the outermost in. -/
def directoriesFrom (directory : String) : List String → List String
  | [] => []
  | name :: rest => join directory name :: directoriesFrom (join directory name) rest

/-- Whether a path comes before another when they are compared name by name. -/
def comesBefore (a b : String) : Bool :=
  !(components b).lex (components a) fun x y => x < y

/-- The directories of all touched namespaces that hold no stub file themselves. -/
def markedDirectories (context : Context) : List String :=
  let stubbed := context.touched.map fun home => components (Namespace.directory context.root home)
  let all := context.touched.flatMap fun home =>
    directoriesFrom context.root (Namespace.names home)
  ((Text.distinct all).filter fun d => !stubbed.contains (components d)).mergeSort comesBefore

/-- The first names of all touched namespaces. -/
def topLevel (context : Context) : List String :=
  (context.touched.filterMap fun home => (Namespace.names home).head?).foldr Text.insertSorted []

def rootMarkerText (context : Context) : String :=
  rootBanner ++ String.join ((topLevel context).map fun name => "from . import " ++ name ++ "\n")

/-- Marks every directory of the tree as a package. -/
def finalize : Job Site Unit := do
  let context := (← Job.get).context
  (markedDirectories context).forM fun d => Site.onFiles (Action.write (join d markerFile) [])
  Site.onFiles (Action.write (join context.root markerFile) (bytes (rootMarkerText context)))

end StubTree.Package
