import EmailTemplates.Proofs.Source.Encoded

namespace EmailTemplates.Source

open Segment (Skips SkipsTo)

/-- Text after which the search for the end of an element of the name goes on as before it. -/
def Contained (name cs : List Char) : Prop :=
  SkipsTo name (Literal.encode cs)

variable {name cs : List Char}

theorem OnlyInlineTags.contained (h : OnlyInlineTags cs) (hname : name ∉ inlineNames) :
    Contained name cs :=
  (h.inline.skips hname).skipsTo

theorem contained_of_not_mem (h : '<' ∉ cs) : Contained name cs := by
  refine (Segment.skips_of_not_mem fun hmem => h ?_).skipsTo
  exact Literal.mem_of_mem_encode (by decide) (by decide) (by decide) hmem

end EmailTemplates.Source
