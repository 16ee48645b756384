import EmailTemplates.Error

namespace EmailTemplates

inductive ColorScheme where
  | blue
  | green
  | orange
  | red
  | purple
  | gray
deriving DecidableEq, Repr

structure Palette where
  primary : String
  primaryDark : String
  light : String
  border : String
  text : String
deriving DecidableEq, Repr

namespace ColorScheme

def all : List ColorScheme :=
  [blue, green, orange, red, purple, gray]

def id : ColorScheme → String
  | blue => "blue"
  | green => "green"
  | orange => "orange"
  | red => "red"
  | purple => "purple"
  | gray => "gray"

def ofId? (s : String) : Option ColorScheme :=
  all.find? (·.id == s)

def ofId (s : String) : Except TemplateError ColorScheme :=
  (ofId? s).elim (.error (.unknownColorScheme s)) .ok

theorem ofId?_id (scheme : ColorScheme) : ofId? scheme.id = some scheme := by
  cases scheme <;> rfl

def palette : ColorScheme → Palette
  | blue => ⟨"#2563eb", "#1d4ed8", "#eff6ff", "#bfdbfe", "#1e3a8a"⟩
  | green => ⟨"#16a34a", "#15803d", "#f0fdf4", "#bbf7d0", "#14532d"⟩
  | orange => ⟨"#ea580c", "#c2410c", "#fff7ed", "#fed7aa", "#7c2d12"⟩
  | red => ⟨"#dc2626", "#b91c1c", "#fef2f2", "#fecaca", "#7f1d1d"⟩
  | purple => ⟨"#9333ea", "#7e22ce", "#faf5ff", "#e9d5ff", "#581c87"⟩
  | gray => ⟨"#4b5563", "#374151", "#f9fafb", "#e5e7eb", "#111827"⟩

end ColorScheme

end EmailTemplates
