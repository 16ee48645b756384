namespace EmailTemplates

inductive Json where
  | null
  | bool (b : Bool)
  | nat (n : Nat)
  | number (literal : String)
  | string (s : String)
  | array (items : List Json)
  | object (members : List (String × Json))
  | unreadable
deriving Repr

namespace Json

mutual

def isReadable : Json → Bool
  | unreadable => false
  | array items => allReadable items
  | object members => allMembersReadable members
  | _ => true

def allReadable : List Json → Bool
  | [] => true
  | item :: items => item.isReadable && allReadable items

def allMembersReadable : List (String × Json) → Bool
  | [] => true
  | (_, value) :: members => value.isReadable && allMembersReadable members

end

mutual

def depth : Json → Nat
  | array items => depthOfItems items + 1
  | object members => depthOfMembers members + 1
  | _ => 0

def depthOfItems : List Json → Nat
  | [] => 0
  | item :: items => max item.depth (depthOfItems items)

def depthOfMembers : List (String × Json) → Nat
  | [] => 0
  | (_, value) :: members => max value.depth (depthOfMembers members)

end

end Json

end EmailTemplates
