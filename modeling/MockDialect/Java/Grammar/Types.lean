import MockDialect.Java.Grammar.Rule

namespace MockDialect.Java.Grammar

open Rule

def type : Rule := phrase .type

def expression : Rule := phrase .expression

def annotations : Rule := many (phrase .annotationMark)

def qualifiedName : Rule :=
  grow identifier (node .scopedIdentifier (all [word ".", identifier]))

def primitiveNames : List String :=
  ["byte", "short", "int", "long", "char", "float", "double", "boolean"]

def primitiveType : Rule := token (fun t => primitiveNames.any t.isText) .primitiveType

def voidType : Rule := keyword "void" .voidType

def classType : Rule :=
  grow typeIdentifier
    (alt (node .scopedTypeIdentifier (all [word ".", annotations, typeIdentifier]))
      (node .genericType (phrase .typeArguments)))

def simpleType : Rule := any [primitiveType, voidType, classType]

def dimensions : Rule :=
  node .dimensions (oneOrMore (all [annotations, word "[", word "]"]))

/-- A type without annotations in front. -/
def plainType : Rule := grow simpleType (node .arrayType dimensions)

def typeRule : Rule :=
  choose fun
    | "@" => node .annotatedType (seq (oneOrMore (phrase .annotationMark)) plainType)
    | _ => plainType

def wildcard : Rule :=
  node .wildcard (all [annotations, word "?",
    optional (all [oneOf ["extends", "super"], type])])

def typeArgumentsRule : Rule :=
  node .typeArguments (all [word "<", commaSeparated (alt wildcard type), closeAngle])

def typeArguments : Rule := phrase .typeArguments

def typeParameter : Rule :=
  node .typeParameter (all [annotations, typeIdentifier,
    optional (node .typeBound (all [word "extends", separated (word "&") type]))])

def typeParameters : Rule :=
  node .typeParameters (all [word "<", separated (word ",") typeParameter, closeAngle])

def elementValuePair : Rule :=
  node .elementValuePair (all [role .key identifier, word "=", role .value (phrase .elementValue)])

def elementValueRule : Rule :=
  choose fun
    | "@" => phrase .annotationMark
    | "\x7b" =>
      node .elementValueArray
        (all [word "\x7b", commaSeparated (phrase .elementValue), optional (word ","), word "\x7d"])
    | _ => expression

def annotationArguments : Rule :=
  node .annotationArguments
    (all [word "(",
      alt (all [ahead (all [identifier, word "="]), separated (word ",") elementValuePair])
        (optional (phrase .elementValue)),
      word ")"])

def annotationRule : Rule :=
  all [absent (all [word "@", word "interface"]),
    alt (node .annotationCall
        (all [word "@", role .name qualifiedName, role .arguments annotationArguments]))
      (node .annotationMarker (all [word "@", role .name qualifiedName]))]

def modifierWords : List String :=
  ["public", "protected", "private", "abstract", "static", "final", "strictfp", "default",
   "synchronized", "native", "transient", "volatile"]

/-- `sealed` and `non-sealed` are modifiers only in front of what a modifier can stand in front of. -/
def sealing : Rule :=
  all [alt (word "sealed") (all [word "non", word "-", word "sealed"]),
    ahead (oneOf ("class" :: "interface" :: "sealed" :: "non" :: modifierWords))]

def modifiersRule : Rule :=
  node .modifiers (oneOrMore (any [oneOf modifierWords, phrase .annotationMark, sealing]))

def optionalModifiers : Rule := optional (phrase .modifiers)

end MockDialect.Java.Grammar
