namespace EmailTemplates

structure CodeInfo where
  code : String
  subsystem : String
  title : String
  messageTemplate : String
  sinceVersion : String
deriving DecidableEq, Repr

namespace CodeInfo

def docsUrl (info : CodeInfo) : String :=
  "https://mailblocks.dev/docs/errors/" ++ info.code

def all : List CodeInfo :=
  [⟨"M-0-1", "internal", "Internal Error",
    "An internal error occurred. This is a bug in mailblocks.", "0.1.0"⟩,
   ⟨"M-1-1", "model", "Invalid Template Slug",
    "Template slugs must be lowercase kebab-case.", "0.1.0"⟩,
   ⟨"M-1-2", "model", "Duplicate Block Id",
    "Every block in a template must have a unique id.", "0.1.0"⟩,
   ⟨"M-1-3", "model", "Unknown Color Scheme",
    "Color schemes must be one of blue, green, orange, red, purple or gray.", "0.1.0"⟩,
   ⟨"M-2-1", "variables", "Undeclared Variable",
    "The template references a variable it does not declare.", "0.1.0"⟩,
   ⟨"M-2-2", "variables", "Variable Not Available In Context",
    "The variable is not registered for this template context.", "0.1.0"⟩,
   ⟨"M-3-1", "render", "Malformed Block",
    "A block is missing a required field or carries an invalid value.", "0.1.0"⟩,
   ⟨"M-3-2", "render", "Unresolved Variable",
    "No value was supplied for a variable reference; the token was left in place.", "0.1.0"⟩,
   ⟨"M-4-1", "import", "Missing Required Field",
    "The legacy source does not define a required template field.", "0.1.0"⟩,
   ⟨"M-4-2", "import", "Invalid Field Value",
    "A field in the legacy source has a value the block model cannot represent.", "0.1.0"⟩,
   ⟨"M-4-3", "import", "Defaulted Field",
    "An optional field was not found and a default was used.", "0.1.0"⟩,
   ⟨"M-4-4", "import", "Unrecognized Content",
    "Part of the legacy markup could not be mapped to a block and was skipped.", "0.1.0"⟩,
   ⟨"M-4-5", "import", "Undeclared Variable In Source",
    "The legacy source references a variable missing from its data interface.", "0.1.0"⟩]

def find? (code : String) : Option CodeInfo :=
  all.find? (·.code == code)

end CodeInfo

end EmailTemplates
