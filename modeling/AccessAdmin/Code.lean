import AccessAdmin.Text.Blank
import AccessAdmin.Text.Separated

/-!
# Codes and code lists

Actions and resources of a menu are named by codes. A list of granted codes is stored as one text,
the codes joined by commas, so a code may hold no comma and no blank at its ends.
-/

namespace AccessAdmin.Code

/-- Whether a code reads back unchanged from the comma-joined stored form. -/
def isStorable (code : String) : Bool :=
  !code.isEmpty && !code.toList.contains ',' && Text.trim code == code

/-- The stored form of a list of codes. -/
def joinList (codes : List String) : String :=
  Text.join ',' codes

/-- Reads the stored form: blank ends are dropped, and pieces that are then empty too. -/
def splitList (raw : String) : List String :=
  ((Text.split ',' raw).map Text.trim).filter fun code => !code.isEmpty

end AccessAdmin.Code
