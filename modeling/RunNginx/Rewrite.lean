import RunNginx.Config.Types

/-!
# Rewrite rules

The first rule whose pattern compiles and matches decides.
-/

namespace RunNginx
namespace Rewrite

inductive RewriteOutcome
  | rewritten (uri : Bytes) (stop : Bool)
  | redirect (uri : Bytes) (status : Nat)
  | noMatch
deriving DecidableEq, Repr

/-- What a rule that matched does with the new URI. -/
def outcome (flag : RewriteFlag) (uri : Bytes) : RewriteOutcome :=
  match flag with
  | .last => .rewritten uri false
  | .break => .rewritten uri true
  | .redirect => .redirect uri 302
  | .permanent => .redirect uri 301

/-- Apply rules in order; the first match decides. -/
def applyRewrites (lib : Libraries) : List RewriteRule → Bytes → RewriteOutcome
  | [], _ => .noMatch
  | rule :: rules, uri =>
      match lib.compileRegex rule.pattern with
      | none => applyRewrites lib rules uri
      | some re =>
          if re.isMatch uri then outcome rule.flag (re.replace uri rule.replacement)
          else applyRewrites lib rules uri

end Rewrite
end RunNginx
