import Lineage.Classification
import Lineage.Wire.Symbol

set_option autoImplicit false

/-! # Declarations, members and their pairings as JSON -/

namespace Lineage

namespace DeclarationKey

/-- A key as an object. -/
def toJson (key : DeclarationKey) : Json :=
  .object [("name", .string key.name), ("kind", key.kind.toJson), ("uri", .string key.uri),
    ("range", key.range.toJson)]

/-- The fields of a key. -/
def record (room : Nat) : Record [String, SymbolKind, String, Range] :=
  .field "name" Reader.string .required <|
  .field "kind" SymbolKind.read .required <|
  .field "uri" Reader.string .required <|
  .field "range" (Range.read room) .required .done

/-- Reads a key. -/
def read : Nat → Reader DeclarationKey :=
  Reader.opening fun room =>
    (record room).read fun (name, kind, uri, range, ()) => ⟨name, kind, uri, range⟩

end DeclarationKey

namespace Member

/-- A member as an object. -/
def toJson (member : Member) : Json :=
  .object [("name", .string member.name), ("kind", member.kind.toJson), ("uri", .string member.uri),
    ("range", member.range.toJson), ("text", .string member.text)]

/-- The fields of a member. -/
def record (room : Nat) : Record [String, SymbolKind, String, Range, String] :=
  .field "name" Reader.string .required <|
  .field "kind" SymbolKind.read .required <|
  .field "uri" Reader.string .required <|
  .field "range" (Range.read room) .required <|
  .field "text" Reader.string .required .done

/-- Reads a member. -/
def read : Nat → Reader Member :=
  Reader.opening fun room =>
    (record room).read fun (name, kind, uri, range, text, ()) => ⟨name, kind, uri, range, text⟩

end Member

namespace Declaration

/-- A declaration as an object. -/
def toJson (declaration : Declaration) : Json :=
  .object [("name", .string declaration.name), ("kind", declaration.kind.toJson),
    ("uri", .string declaration.uri), ("range", declaration.range.toJson),
    ("text", .string declaration.text), ("members", .array (declaration.members.map Member.toJson))]

/-- The fields of a declaration. -/
def record (room : Nat) : Record [String, SymbolKind, String, Range, String, List Member] :=
  .field "name" Reader.string .required <|
  .field "kind" SymbolKind.read .required <|
  .field "uri" Reader.string .required <|
  .field "range" (Range.read room) .required <|
  .field "text" Reader.string .required <|
  .field "members" (Reader.list Member.read room) .required .done

/-- Reads a declaration. -/
def read : Nat → Reader Declaration :=
  Reader.opening fun room =>
    (record room).read fun (name, kind, uri, range, text, members, ()) =>
      ⟨name, kind, uri, range, text, members⟩

end Declaration

namespace MemberRelation

/-- The words for the relations. -/
def words : List (String × MemberRelation) :=
  [(overrides.title, overrides), (implements.title, implements)]

/-- Reads a relation. -/
def read : Nat → Reader MemberRelation := Reader.choice words

end MemberRelation

namespace MemberPairing

/-- A pairing as an object. -/
def toJson (pairing : MemberPairing) : Json :=
  .object [("queryingMember", pairing.member.toJson), ("ancestorType", pairing.ancestor.toJson),
    ("ancestorMember", pairing.ancestorMember.toJson), ("kind", .string pairing.relation.title)]

/-- The fields of a pairing. -/
def record (room : Nat) : Record [Member, DeclarationKey, Member, MemberRelation] :=
  .field "queryingMember" (Member.read room) .required <|
  .field "ancestorType" (DeclarationKey.read room) .required <|
  .field "ancestorMember" (Member.read room) .required <|
  .field "kind" (MemberRelation.read room) .required .done

/-- Reads a pairing. -/
def read : Nat → Reader MemberPairing :=
  Reader.opening fun room =>
    (record room).read fun (member, ancestor, ancestorMember, relation, ()) =>
      ⟨member, ancestor, ancestorMember, relation⟩

end MemberPairing
end Lineage
