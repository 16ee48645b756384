import EmailTemplates.Template.Basic

namespace EmailTemplates

structure SystemTemplate where
  slug : String
  name : String
  description : String
  category : String
  colorScheme : ColorScheme
deriving DecidableEq, Repr

namespace SystemTemplate

def all : List SystemTemplate :=
  [⟨"payment-reminder", "Payment Reminder",
    "Sent before or on an invoice due date", "billing", .blue⟩,
   ⟨"payment-receipt", "Payment Receipt",
    "Confirms a successful payment", "billing", .green⟩,
   ⟨"payment-failed", "Payment Failed",
    "A card charge was declined", "billing", .red⟩,
   ⟨"booking-confirmation", "Booking Confirmation",
    "Confirms a newly booked service visit", "scheduling", .blue⟩,
   ⟨"service-reminder", "Service Reminder",
    "Reminds the customer of an upcoming visit", "scheduling", .orange⟩,
   ⟨"service-completed", "Service Completed",
    "Thanks the customer after a visit and asks for a review", "scheduling", .green⟩,
   ⟨"holiday-closure", "Holiday Closure",
    "Announces dates the business is closed", "announcements", .gray⟩,
   ⟨"discount-offer", "Discount Offer",
    "Promotional code for returning customers", "marketing", .purple⟩,
   ⟨"welcome", "Welcome",
    "First email after an account is created", "account", .blue⟩,
   ⟨"password-reset", "Password Reset",
    "Password reset link and verification code", "account", .gray⟩]

def find? (slug : String) : Option SystemTemplate :=
  all.find? (·.slug == slug)

def inCategory (category : String) : List SystemTemplate :=
  all.filter (·.category == category)

def categories : List String :=
  (all.map (·.category)).eraseDups

def starter (s : SystemTemplate) : Template where
  slug := s.slug
  name := s.name
  description := none
  subject := s.name
  preheader := none
  colorScheme := s.colorScheme
  header := ⟨none, s.name, none⟩
  blocks := [.ofKind .greeting "greeting", .ofKind .paragraph "intro"]
  footer := ⟨.standard, none⟩
  declarations := []
  context := none

end SystemTemplate

end EmailTemplates
