import LexScript.Program

/-!
# Programs that are alike

Two trees are alike if they differ at most in ids and lines. Numbers are compared as
programs compare them, so the zeros are alike.

## Main definitions

* `Expr.alike`, `Stmt.alike`, `alikePrograms` : the comparison.
-/

namespace LexScript

/-- Whether two constants are equal. -/
def Literal.alike : Literal → Literal → Bool
  | number x, number y => x.equals y
  | string s, string t => s == t
  | boolean b, boolean c => b == c
  | nil, nil => true
  | _, _ => false

/-- Whether two identifiers have the same text. -/
def Ident.alike (x y : Ident) : Bool := x.text == y.text

/-- Whether two lists of identifiers have the same texts. -/
def alikeIdents (xs ys : List Ident) : Bool := xs.map Ident.text == ys.map Ident.text

/-- Whether two optional superclasses have the same name. -/
def alikeSuperclasses : Option SuperclassName → Option SuperclassName → Bool
  | none, none => true
  | some s, some t => s.ident.alike t.ident
  | _, _ => false

mutual

/-- Whether two expressions differ at most in ids and lines. -/
def Expr.alike : Expr → Expr → Bool
  | .literal _ v, .literal _ w => v.alike w
  | .grouping _ e, .grouping _ f => e.alike f
  | .unary _ op _ e, .unary _ op' _ f => op == op' && e.alike f
  | .binary _ op _ l r, .binary _ op' _ l' r' => op == op' && l.alike l' && r.alike r'
  | .logical _ op _ l r, .logical _ op' _ l' r' => op == op' && l.alike l' && r.alike r'
  | .read _ x, .read _ y => x.alike y
  | .assign _ x e, .assign _ y f => x.alike y && e.alike f
  | .call _ c _ es, .call _ d _ fs => c.alike d && alikeExprs es fs
  | .lambda _ _ xs b, .lambda _ _ ys c => alikeIdents xs ys && alikeStmts b c
  | .get _ o x, .get _ p y => o.alike p && x.alike y
  | .set _ o x e, .set _ p y f => o.alike p && x.alike y && e.alike f
  | .this _ _, .this _ _ => true
  | .super _ _ m, .super _ _ n => m.alike n
  | _, _ => false

/-- Whether two lists of expressions are alike one by one. -/
def alikeExprs : List Expr → List Expr → Bool
  | [], [] => true
  | e :: es, f :: fs => e.alike f && alikeExprs es fs
  | _, _ => false

/-- Whether two statements differ at most in ids and lines. -/
def Stmt.alike : Stmt → Stmt → Bool
  | .expression e, .expression f => e.alike f
  | .print _ e, .print _ f => e.alike f
  | .varDecl x none, .varDecl y none => x.alike y
  | .varDecl x (some e), .varDecl y (some f) => x.alike y && e.alike f
  | .block b, .block c => alikeStmts b c
  | .ifElse e s none, .ifElse f t none => e.alike f && s.alike t
  | .ifElse e s (some u), .ifElse f t (some v) => e.alike f && s.alike t && u.alike v
  | .whileLoop e s, .whileLoop f t => e.alike f && s.alike t
  | .funDecl d, .funDecl d' => d.alike d'
  | .returns _ none, .returns _ none => true
  | .returns _ (some e), .returns _ (some f) => e.alike f
  | .classDecl x s ms, .classDecl y t ns =>
    x.alike y && alikeSuperclasses s t && alikeFunctions ms ns
  | _, _ => false

/-- Whether two lists of statements are alike one by one. -/
def alikeStmts : List Stmt → List Stmt → Bool
  | [], [] => true
  | s :: ss, t :: ts => s.alike t && alikeStmts ss ts
  | _, _ => false

/-- Whether two named functions differ at most in ids and lines. -/
def FunctionDecl.alike : FunctionDecl → FunctionDecl → Bool
  | .mk x xs b, .mk y ys c => x.alike y && alikeIdents xs ys && alikeStmts b c

/-- Whether two lists of named functions are alike one by one. -/
def alikeFunctions : List FunctionDecl → List FunctionDecl → Bool
  | [], [] => true
  | f :: fs, g :: gs => f.alike g && alikeFunctions fs gs
  | _, _ => false

end

/-- Whether two programs differ at most in ids and lines. -/
def alikePrograms (p q : List Stmt) : Bool := alikeStmts p q

end LexScript
