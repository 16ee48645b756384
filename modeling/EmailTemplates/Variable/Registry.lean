import EmailTemplates.Template.Basic

namespace EmailTemplates

inductive VariableCategory where
  | customer
  | payment
  | service
  | action
deriving DecidableEq, Repr

namespace VariableCategory

def all : List VariableCategory :=
  [customer, payment, service, action]

def id : VariableCategory → String
  | customer => "customer"
  | payment => "payment"
  | service => "service"
  | action => "action"

def displayName : VariableCategory → String
  | customer => "Customer"
  | payment => "Payment"
  | service => "Service"
  | action => "Actions & Links"

def ofId? (s : String) : Option VariableCategory :=
  all.find? (·.id == s)

end VariableCategory

structure VariableDefinition where
  name : String
  label : String
  kind : VariableKind
  category : VariableCategory
  sample : String
  availableIn : List String
deriving DecidableEq, Repr

namespace VariableDefinition

def isAvailableIn (d : VariableDefinition) (context : String) : Bool :=
  d.availableIn.any fun c => c == "*" || c == context

end VariableDefinition

namespace Variable

def registry : List VariableDefinition :=
  [⟨"customer_name", "Customer name", .text, .customer,
    "Jane Smith",
    ["*"]⟩,
   ⟨"customer_email", "Customer email", .text, .customer,
    "jane@example.com",
    ["*"]⟩,
   ⟨"customer_phone", "Customer phone", .text, .customer,
    "(555) 123-4567",
    ["booking-confirmation", "service-reminder"]⟩,
   ⟨"invoice_number", "Invoice number", .text, .payment,
    "INV-1042",
    ["payment-reminder", "payment-receipt", "payment-failed"]⟩,
   ⟨"amount_due", "Amount due", .money, .payment,
    "$149.00",
    ["payment-reminder", "payment-failed"]⟩,
   ⟨"amount_paid", "Amount paid", .money, .payment,
    "$149.00",
    ["payment-receipt"]⟩,
   ⟨"due_date", "Due date", .date, .payment,
    "March 14, 2025",
    ["payment-reminder", "payment-failed"]⟩,
   ⟨"payment_date", "Payment date", .date, .payment,
    "March 10, 2025",
    ["payment-receipt"]⟩,
   ⟨"payment_method", "Payment method", .text, .payment,
    "Visa ending in 4242",
    ["payment-receipt", "payment-failed"]⟩,
   ⟨"discount_code", "Discount code", .text, .payment,
    "SPRING20",
    ["discount-offer"]⟩,
   ⟨"discount_amount", "Discount amount", .money, .payment,
    "20%",
    ["discount-offer"]⟩,
   ⟨"expiry_date", "Offer expiry date", .date, .payment,
    "April 30, 2025",
    ["discount-offer"]⟩,
   ⟨"service_name", "Service name", .text, .service,
    "Deep Cleaning",
    ["booking-confirmation", "service-reminder", "service-completed", "payment-receipt"]⟩,
   ⟨"service_date", "Service date", .date, .service,
    "March 18, 2025",
    ["booking-confirmation", "service-reminder", "service-completed"]⟩,
   ⟨"service_time", "Service time", .text, .service,
    "9:00 AM",
    ["booking-confirmation", "service-reminder"]⟩,
   ⟨"service_address", "Service address", .text, .service,
    "42 Harbor Lane, Springfield",
    ["booking-confirmation", "service-reminder"]⟩,
   ⟨"technician_name", "Technician name", .text, .service,
    "Alex Rivera",
    ["service-reminder", "service-completed"]⟩,
   ⟨"closure_start", "Closure start date", .date, .service,
    "December 24, 2025",
    ["holiday-closure"]⟩,
   ⟨"closure_end", "Closure end date", .date, .service,
    "January 2, 2026",
    ["holiday-closure"]⟩,
   ⟨"pay_url", "Payment link", .url, .action,
    "https://pay.example.com/inv/1042",
    ["payment-reminder", "payment-failed"]⟩,
   ⟨"receipt_url", "Receipt link", .url, .action,
    "https://pay.example.com/receipts/1042",
    ["payment-receipt"]⟩,
   ⟨"booking_url", "Booking link", .url, .action,
    "https://book.example.com/b/7731",
    ["booking-confirmation", "service-reminder"]⟩,
   ⟨"reschedule_url", "Reschedule link", .url, .action,
    "https://book.example.com/b/7731/reschedule",
    ["booking-confirmation", "service-reminder"]⟩,
   ⟨"review_url", "Review link", .url, .action,
    "https://example.com/review/7731",
    ["service-completed"]⟩,
   ⟨"reset_url", "Password reset link", .url, .action,
    "https://example.com/reset/abc123",
    ["password-reset"]⟩,
   ⟨"verification_code", "Verification code", .text, .action,
    "482913",
    ["password-reset", "welcome"]⟩,
   ⟨"portal_url", "Customer portal link", .url, .action,
    "https://example.com/account",
    ["*"]⟩,
   ⟨"action_url", "Primary action link", .url, .action,
    "https://example.com/go",
    ["*"]⟩,
   ⟨"qr_code", "Check-in QR code", .base64Image, .action,
    "data:image/png;base64,iVBORw0KGgo=",
    ["booking-confirmation"]⟩]

def lookup? (name : String) : Option VariableDefinition :=
  registry.find? (·.name == name)

def isValidIn (name context : String) : Bool :=
  match lookup? name with
  | some d => d.isAvailableIn context
  | none => false

def forContext (context : String) : List VariableDefinition :=
  registry.filter (·.isAvailableIn context)

def byCategory (context : Option String) : List (VariableCategory × List VariableDefinition) :=
  VariableCategory.all.map fun category =>
    (category, registry.filter fun d =>
      d.category == category && context.all d.isAvailableIn)

end Variable

end EmailTemplates
