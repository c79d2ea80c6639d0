/-!
Second names of characters: those of controls, abbreviations, and corrected names.
-/
namespace InlineMarkup

def secondNames : String :=
  "8>Z+T5JLesxXwg+6k3gm[?8C+K3n,T?=ZRlUoWaU+5t<~)do:KJf)+pnyE1hafdblGK*zk>zG^7R;41/~pok2FZ^lisfV%1m)b,3N<JH[;0AC%eJC/i
P;l[B$PWew1X2=KEoc3~C1TrIrJ%_rO'j$6WA!W5Be+,Lh(,yy<szi[Q'[=!p1>lN=^E5jK,QQ%U8v,@Ew?cY774q(jY))^q+QrVt?(1s^;u.6J*HtTc^1
vOH[u:@!%um2Xy(|WoWin;?vlL`/:4sI|tJSFrJuhB1QgxJD?2YW[zh_d`k5J5zP~V*+05|^qk@F@20NS)dvr`e~_2ORO7p<e%Z*4+A~oc:2Z90+MOo`kB
MnMJo|3%YSY&Pvlawg$i6T7l9aBqspo^pre%28Ri3CC8rY%|1M<~PkEeQh!>hf`4U%&`9iW5vBhP/=&IdxBf8M=]M0[]Uti[1nm%G|hT'<K3t71@8e`@'N
VqB*B:QU@h^(0~o2TNBrcM*r[E26;mAJ~%bXn]2:2I:Gbth.7wza4Gm<pamNd2F4e954%AH5$pa)X/mrPU@g4u(wXNo*Hm;qjI/l,Bmy&,k*l+8=)GSRh.
G@X%N:q'nef(Tmn|PIu*(<3YND6d(rb>aB>(b3[9aoX$|vW?rUlx%4x,>x1kD:rKGG[~WYxz8y|;s+u(vruC2P`ZNx%V+Qcl[6%`)VSG*H2zp$M;=.D1N:
AEOtWvH3ut9*,LHoi/awJT&6h0<2`3Tiu]XyFin:Mjrovyxn(F:wlw!8(p4WnHzO&S[`R,`RLN6$GvEkA74Mk%m/)o/'/=>^`h*h'EAJ=+FEGtbS?%D!O4
JKf[@bRMP+[1cWniyt/'0ygZN^F.XHiDI9@V2[rjHJP9up4GCf&*f~~$eYrs9[*ur)nFr_mrgnc4ckha|OWe6`szeG+TXV(=6epkVqJHE(FUfc*I<A+U61
t=rPk$H1$5lLm?(d`qLpV>gZ@emqfF^x0GWoyV1fYEY;gcr@m=ydeZD2cpIh3d8r~M~%frL@C]:>BJbfd1B@pN>,ajNa|w72Pr[v$.RPv:T2E'@0O60B4Z
MmseG<uHL`>xU9?O.9]&+oHbnr>+XLr@Q+VO59JrqdZ<R^e__Ax9')JgX0H9R0Qt2u7f.l^UA'!f:Al`Q%&KX%54;=TA'U3~~W<p`>>UDSo~ws<wyM[LC*
H^zGh=lUCE|D,XYxsB6TY|E2KBs*5PD8Re5)ScA|n~=F@md`Io:OonD.1_[yMf|/sc+|cpU$q_b!rq~`=0couoW6ZiL8gcDVM&PYQ;H@_8*/[f=WS)2ff.
RE($kVkJ)xz!r1sXftp=[cl@:"

end InlineMarkup
