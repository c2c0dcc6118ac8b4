import RouterPlan.Pattern.Reader
import RouterPlan.Pattern.Search
import RouterPlan.Regex

/-!
# The engine of patterns

When a program runs, patterns stand in for the package of regular expressions (`RegexEngine`). Of its notation they leave out classes
by Unicode property, and they are not as strict about bytes beyond ASCII and the names of groups. Results about order rules are about
any package; these patterns are the one that fixed rules are tried with.
-/

namespace RouterPlan

instance Pattern.engine : RegexEngine where
  compile? text := (Pattern.ofText? text).map fun p => { isMatch := p.isFoundIn }

end RouterPlan
