import LoxLang.Machine.Listing
import LoxLang.Main
import LoxLang.Proofs.Binding.Bodies
import LoxLang.Proofs.Binding.Effect
import LoxLang.Proofs.Binding.Enclosing
import LoxLang.Proofs.Binding.Globals
import LoxLang.Proofs.Binding.Levels
import LoxLang.Proofs.Binding.Logged
import LoxLang.Proofs.Binding.Positions
import LoxLang.Proofs.Binding.Recorded
import LoxLang.Proofs.Machine.Access
import LoxLang.Proofs.Machine.Deeper
import LoxLang.Proofs.Machine.Exits
import LoxLang.Proofs.Machine.Expressions
import LoxLang.Proofs.Machine.ForLoop
import LoxLang.Proofs.Machine.Globals
import LoxLang.Proofs.Machine.Lines
import LoxLang.Proofs.Machine.Located
import LoxLang.Proofs.Machine.Owners
import LoxLang.Proofs.Machine.Reached
import LoxLang.Proofs.Outcome
import LoxLang.Proofs.Session.Ancestry
import LoxLang.Proofs.Session.Assignments
import LoxLang.Proofs.Session.Capture
import LoxLang.Proofs.Session.Construction
import LoxLang.Proofs.Session.ControlFlow
import LoxLang.Proofs.Session.Echo
import LoxLang.Proofs.Session.History
import LoxLang.Proofs.Session.Inert
import LoxLang.Proofs.Session.Internal
import LoxLang.Proofs.Session.Joined
import LoxLang.Proofs.Session.Mirroring
import LoxLang.Proofs.Session.Occurrences
import LoxLang.Proofs.Session.Owners
import LoxLang.Proofs.Session.Properties
import LoxLang.Proofs.Session.Restored
import LoxLang.Proofs.Session.Scoping
import LoxLang.Proofs.Session.Stages
import LoxLang.Proofs.Session.Unread
import LoxLang.Proofs.Store.Logged
import LoxLang.Proofs.Token.Joined
import LoxLang.Proofs.Token.Lines
import LoxLang.Proofs.Token.Rendered
import LoxLang.Proofs.Token.Table
import LoxLang.Proofs.Tree.Advancing
import LoxLang.Proofs.Tree.ExpressionStatement
import LoxLang.Proofs.Tree.Postfix
import LoxLang.Proofs.Tree.Printed
import LoxLang.Proofs.Tree.Recovery
import LoxLang.Proofs.Tree.Reported
