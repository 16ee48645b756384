import EmailTemplates.Template.Basic

namespace EmailTemplates.Template

def position? (t : Template) (id : String) : Option Nat :=
  t.blocks.findIdx? (·.id == id)

def block? (t : Template) (id : String) : Option Block :=
  t.blocks.find? (·.id == id)

def withBlocks (t : Template) (blocks : List Block) : Template :=
  { t with blocks }

def insertBlock (t : Template) (index : Nat) (b : Block) : Except TemplateError Template :=
  if t.blocks.length < index then .error (.invalidBlockPosition index t.blocks.length)
  else if b.id = "" then .error (.emptyBlockId t.blocks.length)
  else if (t.block? b.id).isSome then .error (.duplicateBlockId b.id)
  else .ok (t.withBlocks (t.blocks.insertIdx index b))

def pushBlock (t : Template) (b : Block) : Except TemplateError Template :=
  t.insertBlock t.blocks.length b

def replaceBlock (t : Template) (b : Block) : Except TemplateError (Block × Template) :=
  match t.position? b.id, t.block? b.id with
  | some i, some old => .ok (old, t.withBlocks (t.blocks.set i b))
  | _, _ => .error (.blockNotFound b.id)

/-- Moves the block so that it ends up at `target`. -/
def moveBlock (t : Template) (id : String) (target : Nat) : Except TemplateError Template :=
  match t.position? id, t.block? id with
  | some i, some b =>
    if t.blocks.length ≤ target then .error (.invalidBlockPosition target t.blocks.length)
    else .ok (t.withBlocks ((t.blocks.eraseIdx i).insertIdx target b))
  | _, _ => .error (.blockNotFound id)

def removeBlock (t : Template) (id : String) : Except TemplateError (Block × Template) :=
  match t.position? id, t.block? id with
  | some i, some b => .ok (b, t.withBlocks (t.blocks.eraseIdx i))
  | _, _ => .error (.blockNotFound id)

end EmailTemplates.Template
