import BooleanQuery.Proofs.Calculator
import BooleanQuery.Proofs.Message
import BooleanQuery.Proofs.Term
import BooleanQuery.Proofs.Compile.Asked
import BooleanQuery.Proofs.Compile.Calls
import BooleanQuery.Proofs.Compile.Conjunction
import BooleanQuery.Proofs.Compile.Direct
import BooleanQuery.Proofs.Compile.Disjunction
import BooleanQuery.Proofs.Compile.Limit
import BooleanQuery.Proofs.Compile.Parentheses
import BooleanQuery.Proofs.Compile.Records
import BooleanQuery.Proofs.Compile.Rejections
import BooleanQuery.Proofs.Compile.Rendering
import BooleanQuery.Proofs.Compile.Spacing
import BooleanQuery.Proofs.Compile.Written
import BooleanQuery.Proofs.Dnf.Choices
import BooleanQuery.Proofs.Dnf.Semiring
import BooleanQuery.Proofs.Operator.Pieces
import BooleanQuery.Proofs.Paren.Partner
import BooleanQuery.Proofs.Query.Ends
import BooleanQuery.Proofs.Text.Words
import BooleanQuery.Proofs.Token.LongestMatch
