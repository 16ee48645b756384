import EmailTemplates.Draft.Basic

namespace EmailTemplates

abbrev Editing := EStateM TemplateError Draft

namespace Editing

def blocks : Editing (List Block) :=
  return (← get).template.blocks

def setBlocks (blocks : List Block) : Editing Unit :=
  modify fun d => { d with template := d.template.withBlocks blocks }

def ensureUnusedId (b : Block) : Editing Unit := do
  let t := (← get).template
  if b.id = "" then throw (.emptyBlockId t.blocks.length)
  if (t.block? b.id).isSome then throw (.duplicateBlockId b.id)

def locate (id : String) : Editing Nat := do
  match (← get).template.position? id with
  | some i => return i
  | none => throw (.blockNotFound id)

def insertBlock (index : Nat) (b : Block) : Editing Unit := do
  let size := (← blocks).length
  if size < index then throw (.invalidBlockPosition index size)
  ensureUnusedId b
  setBlocks ((← blocks).insertIdx index b)

def replaceBlock (b : Block) : Editing Unit := do
  let i ← locate b.id
  setBlocks ((← blocks).set i b)

def moveBlock (id : String) (target : Nat) : Editing Unit := do
  let i ← locate id
  let size := (← blocks).length
  if size ≤ target then throw (.invalidBlockPosition target size)
  let moved := (← blocks)[i]?
  setBlocks ((← blocks).eraseIdx i)
  moved.forM fun b => do setBlocks ((← blocks).insertIdx target b)

def removeBlock (id : String) : Editing Unit := do
  let i ← locate id
  setBlocks ((← blocks).eraseIdx i)

def setSubject (subject : String) : Editing Unit := do
  if Text.isBlankText subject then throw (.emptyField .subject)
  modify fun d => { d with template := { d.template with subject } }

end Editing

namespace EditCommand

open Editing in
def perform (command : EditCommand) : Editing Unit := do
  match command with
  | insertBlock index block => Editing.insertBlock index.toNat block
  | replaceBlock block => Editing.replaceBlock block
  | moveBlock id target => Editing.moveBlock id target.toNat
  | removeBlock id => Editing.removeBlock id
  | setSubject subject => Editing.setSubject subject
  | setPreheader preheader =>
    modify fun d => { d with template := { d.template with
      preheader := preheader.filter fun p => !Text.isBlankText p } }
  | setColorScheme scheme =>
    modify fun d => { d with template := { d.template with colorScheme := scheme } }
  modify fun d => { d with dirty := true }

end EditCommand

namespace Draft

inductive Action where
  | apply (command : EditCommand)
  | markSaved
  | preview
  | previewWith (values : Values)
  | storedMarkup
deriving Repr

inductive Answer where
  | done
  | email (e : RenderedEmail)
  | markup (html : String)
  | refused (e : TemplateError)
  | failed (e : RenderError)
deriving DecidableEq, Repr

namespace Answer

def isError : Answer → Bool
  | refused _ | failed _ => true
  | _ => false

def ofResult {α : Type} (answer : α → Answer) : Except RenderError α → Answer
  | .ok a => answer a
  | .error e => failed e

end Answer

def Action.perform (d : Draft) : Action → Answer × Draft
  | apply command =>
    match command.perform d with
    | .ok () d => (.done, d)
    | .error e d => (.refused e, d)
  | markSaved => (.done, d.markSaved)
  | preview => (.ofResult .email d.preview, d)
  | previewWith values => (.ofResult .email (d.previewWith values), d)
  | storedMarkup => (.ofResult .markup d.storedMarkup, d)

def after (d : Draft) : List Action → Draft
  | [] => d
  | action :: actions => (action.perform d).2.after actions

def reached (t : Template) (actions : List Action) : Draft :=
  (ofTemplate t).after actions

/-- The template as it was at the last save, and `saved` if there was none. -/
def lastSaved (saved : Template) (d : Draft) : List Action → Template
  | [] => saved
  | .markSaved :: actions => lastSaved d.template d.markSaved actions
  | action :: actions => lastSaved saved (action.perform d).2 actions

end Draft

end EmailTemplates
