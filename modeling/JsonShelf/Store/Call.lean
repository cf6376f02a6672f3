/-
**Calls on a store of documents.**

Main definitions:

* `StoreError` — why a call fails, with the wording;
* `StoreCall`, `StoreCall.Reply` — what can be asked of a store, and what is replied;
* `StoreScript` — scripts of such calls;
* `checkPath` — refuses paths that cannot name a document.
-/

import JsonShelf.Glob.Parser
import JsonShelf.Paths.DocPath
import JsonShelf.Script
import JsonShelf.Timestamp

set_option autoImplicit false

namespace JsonShelf

/-- Why a call on a store fails. -/
inductive StoreError where
  | notFound (path : DocPath)
  | alreadyExists (path : DocPath)
  | invalidPath (path : DocPath)
  | invalidPattern (e : Glob.PatternError)
  /-- The system refuses, for a reason in its own words. -/
  | system (path : DocPath) (reason : String)
  deriving DecidableEq, Repr

namespace StoreError

/-- The wording of a failure. -/
def message : StoreError → String
  | notFound path => "file not found: " ++ path.text
  | alreadyExists path => "file already exists: " ++ path.text
  | invalidPath path => "invalid file path: " ++ path.text
  | invalidPattern e => "invalid ignore pattern " ++ e.text ++ ": " ++ e.message
  | system path reason => "i/o error on " ++ path.text ++ ": " ++ reason

/-- The failure and what caused it, outermost first. -/
def chain (e : StoreError) : List String :=
  match e with
  | system _ reason => [e.message, reason]
  | _ => [e.message]

end StoreError

/-- What a store knows of a document without reading it. -/
structure StoredFacts where
  /-- The size in bytes. -/
  size : Nat
  modified : Option Timestamp
  deriving DecidableEq, Repr

/-- What can be asked of a store. -/
inductive StoreCall where
  | readText (path : DocPath)
  /-- Makes a text the whole text of a document, which need not exist. -/
  | writeText (path : DocPath) (text : String)
  /-- Makes a document that must not exist. -/
  | createText (path : DocPath) (text : String)
  | remove (path : DocPath)
  | contains (path : DocPath)
  | facts (path : DocPath)
  /-- The paths of all documents that are listed. -/
  | list
  deriving DecidableEq

/-- What a call is replied. -/
def StoreCall.Reply : StoreCall → Type
  | readText _ => Except StoreError String
  | writeText .. | createText .. | remove _ => Except StoreError Unit
  | contains _ => Except StoreError Bool
  | facts _ => Except StoreError StoredFacts
  | list => Except StoreError (List DocPath)

/-- The document that a call is about. -/
def StoreCall.path? : StoreCall → Option DocPath
  | readText path | writeText path _ | createText path _ | remove path | contains path
  | facts path => some path
  | list => none

/-- A script of calls on a store. -/
abbrev StoreScript := Script StoreCall StoreCall.Reply

/-- Refuses a path that cannot name a document. -/
def checkPath (path : DocPath) : Except StoreError Unit :=
  if path.isDocument then .ok () else .error (.invalidPath path)

end JsonShelf
