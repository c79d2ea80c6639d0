import InlineMarkup.Main
import InlineMarkup.Markup.Reach
import InlineMarkup.Package
import InlineMarkup.Proofs.ArgumentNames
import InlineMarkup.Proofs.Attributes
import InlineMarkup.Proofs.BothModes
import InlineMarkup.Proofs.CallArguments
import InlineMarkup.Proofs.Chains
import InlineMarkup.Proofs.CompleteExpressions
import InlineMarkup.Proofs.DeletedCommas
import InlineMarkup.Proofs.Documents
import InlineMarkup.Proofs.Driving
import InlineMarkup.Proofs.Indents
import InlineMarkup.Proofs.LongStrings
import InlineMarkup.Proofs.Placing
import InlineMarkup.Proofs.PlainTree
import InlineMarkup.Proofs.Remainder
import InlineMarkup.Proofs.Rewinding
import InlineMarkup.Proofs.StaticText
import InlineMarkup.Proofs.Termination
