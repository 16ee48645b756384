import EmailTemplates.Proofs.Markup.Draws
import EmailTemplates.SystemTemplate

namespace EmailTemplates.SystemTemplate

theorem validate_starter {s : SystemTemplate} (h : s ∈ all) : s.starter.validate = .ok () := by
  simp only [all, List.mem_cons, List.not_mem_nil, or_false] at h
  rcases h with rfl | rfl | rfl | rfl | rfl | rfl | rfl | rfl | rfl | rfl <;> rfl

theorem fragments_starter (s : SystemTemplate) :
    s.starter.Fragments [Fragment.greetingMarkup "customer_name",
      Fragment.paragraphMarkup "Add your message here."] :=
  .cons (.greeting rfl) (.cons (.paragraph rfl) .nil)

theorem render_starter {s : SystemTemplate} (h : s ∈ all) (values : Values)
    (options : RenderOptions) :
    s.starter.render values options = .ok (s.starter.emailOf values options
      [Fragment.greetingMarkup "customer_name",
        Fragment.paragraphMarkup "Add your message here."]) :=
  Template.render_eq_ok.mpr ⟨validate_starter h, _, fragments_starter s, rfl⟩

def welcome : SystemTemplate :=
  ⟨"welcome", "Welcome", "First email after an account is created", "account", .blue⟩

theorem welcome_mem_all : welcome ∈ all := by
  simp [all, welcome]

end EmailTemplates.SystemTemplate
