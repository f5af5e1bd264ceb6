import Mixtures.Config.Text
import Mixtures.Group.Sort
import Mixtures.Proofs.Boxes
import Mixtures.Proofs.Density
import Mixtures.Proofs.Em.Agreement
import Mixtures.Proofs.Em.Ascent
import Mixtures.Proofs.Em.Floor
import Mixtures.Proofs.Em.Formulas
import Mixtures.Proofs.Em.GivingUp
import Mixtures.Proofs.Em.Logging
import Mixtures.Proofs.Em.Sharing
import Mixtures.Proofs.Em.Statuses
import Mixtures.Proofs.Em.Stopping
import Mixtures.Proofs.Em.Symmetry
import Mixtures.Proofs.Em.Weights
import Mixtures.Proofs.Group.Index
import Mixtures.Proofs.Group.Tiling
import Mixtures.Proofs.KMeans.Covering
import Mixtures.Proofs.KMeans.Settling
import Mixtures.Proofs.KMeans.Termination
import Mixtures.Proofs.Minima
import Mixtures.Proofs.Pipeline.Independence
import Mixtures.Proofs.Pipeline.Safety
import Mixtures.Proofs.Sampler
import Mixtures.Proofs.Store.Interleaving
import Mixtures.Proofs.Store.Reading
import Mixtures.Proofs.Streams
import Mixtures.Proofs.Translation.Run
import Mixtures.Session
import Mixtures.Store.Save
