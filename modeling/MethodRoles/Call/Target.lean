import MethodRoles.Text

/-!
# Call targets

What a call resolves to. The type of a target is given as a text with its type arguments, either in
angle brackets, as in `Func<int, string>`, or by their number after a backtick.
-/
namespace MethodRoles

structure Target where
  /-- The target is declared in the analyzed code. -/
  isUserCode : Bool
  name : String
  containingNamespace : String := ""
  containingType : String := ""
  isVirtual : Bool := false
  isDelegateInvoke : Bool := false
  deriving DecidableEq, Repr, Inhabited

namespace Target

/-- A method of the analyzed code. -/
def user (name : String) : Target := { isUserCode := true, name }

/-- A member that is declared elsewhere. -/
def external (containingNamespace containingType name : String) : Target :=
  { isUserCode := false, name, containingNamespace, containingType }

end Target

namespace TypeText

/-- The name of a type without its type arguments. -/
def baseName (type : List Char) : List Char :=
  Text.trim (type.takeWhile fun c => c ≠ '<' && c ≠ '\x60')

/-- The commas of a text that stand outside of angle brackets, `depth` of which are open. -/
def outerCommas (depth : Nat) : List Char → Nat
  | [] => 0
  | '<' :: cs => outerCommas (depth + 1) cs
  | '>' :: cs => outerCommas (depth - 1) cs
  | ',' :: cs => (if depth = 0 then 1 else 0) + outerCommas depth cs
  | _ :: cs => outerCommas depth cs

/-- What stands between the first opening and the last closing bracket. -/
def bracketed? (type : List Char) : Option (List Char) :=
  match type.dropWhile (· ≠ '<') with
  | [] => none
  | _ :: rest =>
    match rest.reverse.dropWhile (· ≠ '>') with
    | [] => none
    | _ :: inner => some inner.reverse

/-- The number of type arguments: the number after the first backtick where there is one, else the
number of texts between commas in the brackets. -/
def arity (type : List Char) : Nat :=
  match type.dropWhile (· ≠ '\x60') with
  | _ :: count => (Text.readWord? (Text.trim count)).getD 0
  | [] =>
    match bracketed? type with
    | none | some [] => 0
    | some inner => 1 + outerCommas 0 inner

end TypeText

/-- `Action`, `Action<T>`, `Func<R>` and `Func<T, R>` of `System`: a call of such a delegate is a
call of the code that was passed in. -/
def Target.isSimpleDelegate (t : Target) : Bool :=
  let type := t.containingType.toList
  t.containingNamespace == "System" &&
    ((TypeText.baseName type == "Action".toList && TypeText.arity type ≤ 1) ||
      (TypeText.baseName type == "Func".toList && 1 ≤ TypeText.arity type &&
        TypeText.arity type ≤ 2))

end MethodRoles
